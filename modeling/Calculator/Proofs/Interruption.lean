import Calculator.Proofs.Shunting.Failing
import Calculator.Proofs.Verdict

/-!
# Recorded calls that fail

Every application of an operator is a point where reading may be cut short. What has been recorded
then is the beginning of what is recorded when no application fails, and nothing else that is
wrong with the text comes to light.
-/

namespace Calculator

namespace Expression

/-! ## The recorder -/

theorem recorder_binary {failAt : Option Nat} {op : Operator} {left right offset : Nat}
    {before after : List Event} {result : Except EvaluationError Nat}
    (h : (recorder failAt).binary op left right offset before = (result, after)) :
    after = before ++ [.binary op left right offset] ∧
      ((failAt = some (before.countP Event.isBinary + 1) ∧
          result = .error (.overflow op offset)) ∨
        (failAt ≠ some (before.countP Event.isBinary + 1) ∧ result = .ok before.length)) := by
  have hresult := congrArg Prod.fst h
  have hafter := congrArg Prod.snd h
  refine ⟨hafter.symm, ?_⟩
  simp only [recorder] at hresult
  split at hresult
  · rename_i hnumber
    exact .inl ⟨hnumber, hresult.symm⟩
  · rename_i hnumber
    exact .inr ⟨hnumber, hresult.symm⟩

theorem recorder_ok {failAt : Option Nat} {op : Operator} {left right offset found : Nat}
    {before after : List Event}
    (h : (recorder failAt).binary op left right offset before = (.ok found, after)) :
    after = before ++ [.binary op left right offset] ∧
      failAt ≠ some (before.countP Event.isBinary + 1) ∧ found = before.length := by
  obtain ⟨hafter, ⟨_, hresult⟩ | ⟨hnumber, hresult⟩⟩ := recorder_binary h
  · cases hresult
  · exact ⟨hafter, hnumber, Except.ok.inj hresult⟩

theorem recorder_interrupts (failAt : Option Nat) :
    (recorder failAt).Interrupts (recorder none) where
  integer _ _ := rfl
  binary_ok h := by
    obtain ⟨rfl, _, rfl⟩ := recorder_ok h
    rfl
  binary_error {op left right offset before error after} h := by
    obtain ⟨rfl, _⟩ := recorder_binary h
    exact ⟨before.length, rfl⟩

/-- Events stay in the record. -/
theorem recorder_keeps_events (failAt : Option Nat) (events : List Event) :
    (recorder failAt).Keeps (events <+: ·) where
  integer _ _ h := h.trans (List.prefix_append _ _)
  binary h hprefix := by
    obtain ⟨rfl, _⟩ := recorder_binary h
    exact hprefix.trans (List.prefix_append _ _)

theorem recorder_keeps_count (passed : Nat) :
    (recorder (some (passed + 1))).Keeps fun events => events.countP Event.isBinary ≤ passed where
  integer value before h := by
    simpa [recorder, Event.isBinary] using h
  binary {op left right offset before found after} h hcount := by
    obtain ⟨rfl, hnumber, _⟩ := recorder_ok h
    have hne : passed ≠ before.countP Event.isBinary := by simpa using hnumber
    simp only [List.countP_append, List.countP_singleton, Event.isBinary, if_true]
    omega

theorem recorder_blank :
    (recorder none).Morphism .blank (fun _ => ()) fun _ => () where
  integer _ _ := rfl
  binary _ _ _ _ _ := rfl

theorem result_recorder_ne (text : String) (error : EvaluationError) :
    (parse (recorder none) text []).result ≠ .error (.evaluation error) := by
  intro h
  have hblank := congrArg Run.result (parse_map recorder_blank text [])
  rw [Run.map, h] at hblank
  exact check_ne_evaluation text error hblank

/-! ## Runs cut short -/

theorem parse_keeps {σ α : Type} {S : Semantics σ α} {P : σ → Prop} (h : S.Keeps P)
    (text : String) {store : σ} (hP : P store)
    (hne : ∀ error, (parse S text store).result ≠ .error (.evaluation error)) :
    P (parse S text store).store := by
  cases hempty : Machine.isEmpty (Cursor.ofText text).untilEnd with
  | true =>
      rw [Shunting.parse_eq_of_isEmpty S hempty]
      exact hP
  | false => exact Shunting.run_keeps h hP (Shunting.run_untilEnd S hempty store) hne

/-- A reading that is interrupted has made some of the scans and some of the calls of the whole. -/
theorem parse_interrupted {σ α : Type} {S T : Semantics σ α} (h : S.Interrupts T) (text : String)
    (store : σ) :
    parse S text store = parse T text store ∨
      Shunting.Interrupted S T (parse S text store).result (parse S text store).store
        (parse S text store).scans
        (some (((parse T text store).result, (parse T text store).store),
          (parse T text store).scans)) := by
  cases hempty : Machine.isEmpty (Cursor.ofText text).untilEnd with
  | true =>
      left
      rw [Shunting.parse_eq_of_isEmpty S hempty, Shunting.parse_eq_of_isEmpty T hempty]
  | false =>
      have hS := Shunting.run_untilEnd S hempty store
      have hT := Shunting.run_untilEnd T hempty store
      rcases Shunting.run_interrupted h hS with hsame | hinterrupted
      · left
        exact (congrArg Shunting.toRun (Option.some.inj (hT.symm.trans hsame))).symm
      · rw [hT] at hinterrupted
        exact .inr hinterrupted

/-- What becomes of a reading if the application behind the first `passed` ones fails. -/
structure CutShort (passed : Nat) (whole cut : Run (List Event) Nat) : Prop where
  cut_eq : whole.store.countP Event.isBinary ≤ passed → cut = whole
  cut_at : passed < whole.store.countP Event.isBinary →
    ∃ before op left right offset after,
      whole.store = before ++ .binary op left right offset :: after ∧
      before.countP Event.isBinary = passed ∧
      cut.store = before ++ [.binary op left right offset] ∧
      cut.result = .error (.evaluation (.overflow op offset)) ∧
      cut.scans <+: whole.scans

/-- Failing one application cuts the record behind it, and does nothing if there are fewer. -/
theorem recorder_cut_short (text : String) (passed : Nat) :
    CutShort passed (parse (recorder none) text [])
      (parse (recorder (some (passed + 1))) text []) := by
  have hne := result_recorder_ne text
  rcases parse_interrupted (recorder_interrupts (some (passed + 1))) text [] with
    hsame | hinterrupted
  · have hcount := parse_keeps (recorder_keeps_count passed) text
      (show [].countP Event.isBinary ≤ passed from Nat.zero_le passed) (hsame ▸ hne)
    rw [hsame] at hcount
    exact ⟨fun _ => hsame, fun hlt => absurd hcount (Nat.not_le.mpr hlt)⟩
  · obtain ⟨mark, error, hfailed, hresult⟩ := hinterrupted.failed
    cases hfailed with
    | @intro op offset _ _ left right before call =>
        obtain ⟨hcut, ⟨hnumber, hcause⟩ | ⟨_, hcause⟩⟩ := recorder_binary call
        case inr => cases hcause
        obtain rfl := Except.error.inj hcause
        have hcount : before.countP Event.isBinary = passed := by simpa using hnumber.symm
        have hprefix := hinterrupted.kept (recorder_keeps_events none _) (List.prefix_refl _) rfl
          hne
        obtain ⟨after, hwhole⟩ := hprefix
        rw [hcut, List.append_assoc] at hwhole
        refine ⟨fun hle => ?_, fun _ => ?_⟩
        · rw [← hwhole, List.countP_append, hcount, List.singleton_append,
            List.countP_cons_of_pos rfl] at hle
          omega
        · exact ⟨before, op, left, right, offset, after, hwhole.symm, hcount, hcut, hresult,
            hinterrupted.prefix_scans rfl⟩

end Expression

end Calculator
