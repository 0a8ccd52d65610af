import Calculator.Proofs.Shunting.Descent
import Calculator.Semantics.Recorder

/-!
# Calls

What a run asks of its semantics, written down call by call. The reader that descends and the
shunting yard make the same calls, with the same operands and offsets, whether the text is
accepted or not.
-/

namespace Calculator

/-!
## Morphisms of semantics

A morphism maps the outputs and stores of one semantics to those of another, and commutes with
both calls. Then it maps runs to runs: what is read, and where a reading ends, is the same.
-/

variable {σ τ α β : Type}

structure Semantics.Morphism (S : Semantics σ α) (T : Semantics τ β) (output : α → β)
    (store : σ → τ) : Prop where
  integer : ∀ value before, T.integer value (store before) =
    (output (S.integer value before).1, store (S.integer value before).2)
  binary : ∀ op left right offset before,
    T.binary op (output left) (output right) offset (store before) =
      ((S.binary op left right offset before).1.map output,
        store (S.binary op left right offset before).2)

theorem Semantics.logging_morphism (S : Semantics σ α) : S.logging.Morphism S id Prod.fst where
  integer _ _ := rfl
  binary op left right offset before := by
    have hmap : ∀ result : Except EvaluationError α, result.map id = result := by
      intro result
      cases result <;> rfl
    rw [hmap]
    rfl

namespace Expression

def Run.map (output : α → β) (store : σ → τ) (run : Run σ α) : Run τ β :=
  ⟨run.result.map output, store run.store, run.scans⟩

namespace Shunting

def map (output : α → β) (store : σ → τ) (machine : Shunting σ α) : Shunting τ β :=
  ⟨machine.phase, machine.pending, machine.operands.map output, store machine.store⟩

def mapVerdict (output : α → β) (store : σ → τ) (verdict : Except Error α × σ) :
    Except Error β × τ :=
  (verdict.1.map output, store verdict.2)

variable {S : Semantics σ α} {T : Semantics τ β} {output : α → β} {store : σ → τ}

theorem settle_map (h : S.Morphism T output store) (bar : Nat) (pending : List Mark)
    (operands : List α) (before : σ) :
    settle T bar pending (operands.map output) (store before) =
      ((settle S bar pending operands before).1.map fun rest => (rest.1, rest.2.map output),
        store (settle S bar pending operands before).2) := by
  induction pending generalizing operands before with
  | nil => simp [settle, Except.map]
  | cons mark pending ih =>
      rcases mark with ⟨op, offset⟩ | openedAt
      · rcases operands with _ | ⟨right, _ | ⟨left, operands⟩⟩
        · simp [settle, Except.map]
        · simp [settle, Except.map]
        · by_cases hb : bar ≤ op.precedence
          · simp only [List.map_cons]
            rw [settle_operator hb, settle_operator hb, h.binary]
            rcases S.binary op left right offset before with ⟨error | found, after⟩
            · rfl
            · exact ih (found :: operands) after
          · simp [settle, hb, Except.map]
      · simp [settle, Except.map]

abbrev Maps (output : α → β) (store : σ → τ) (first : Step σ α) (second : Step τ β) : Prop :=
  first.Shown (map output store) (mapVerdict output store) second

theorem maps_begin (machine : Shunting σ α) (placed : Token.Placed) :
    Maps output store (begin machine placed) (begin (map output store machine) placed) := by
  unfold begin
  split
  · rfl
  · by_cases hd : depth machine.pending < maxDepth
    · rw [if_pos hd, if_pos (show depth (map output store machine).pending < maxDepth from hd)]
      rfl
    · rw [if_neg hd, if_neg (show ¬ depth (map output store machine).pending < maxDepth from hd)]
      rfl
  all_goals rfl

theorem maps_judge (machine : Shunting σ α) (placed : Token.Placed) :
    Maps output store (judge machine placed) (judge (map output store machine) placed) := by
  obtain ⟨phase, pending, operands, before⟩ := machine
  unfold judge
  cases placed.token.operator? with
  | some op => rfl
  | none =>
      rcases pending with _ | ⟨_ | openedAt, pending⟩
      · by_cases he : placed.token = .endOfInput
        · simp only [map, if_pos he]
          rcases operands with _ | ⟨value, _ | ⟨other, operands⟩⟩
          · trivial
          · rfl
          · trivial
        · simp only [map, if_neg he]
          rfl
      · trivial
      · by_cases hp : placed.token = .rightParen
        · simp only [map, if_pos hp]
          rfl
        · simp only [map, if_neg hp]
          rfl

theorem maps_proceed (h : S.Morphism T output store) (pending : List Mark) (operands : List α)
    (before : σ) (placed : Token.Placed) :
    Maps output store (proceed S pending operands before placed)
      (proceed T pending (operands.map output) (store before) placed) := by
  unfold proceed
  rw [settle_map h]
  rcases settle S placed.token.precedence pending operands before with
    ⟨error | ⟨pending, operands⟩, after⟩
  · rfl
  · exact maps_judge ⟨.complete, pending, operands, after⟩ placed

theorem maps_step (h : S.Morphism T output store) (machine : Shunting σ α) (scan : Scan) :
    Maps output store (step S machine scan) (step T (map output store machine) scan) := by
  obtain ⟨phase, pending, operands, before⟩ := machine
  rcases scan with error | placed
  · rfl
  · cases phase with
    | wanted => exact maps_begin ⟨.wanted, pending, operands, before⟩ placed
    | literal value =>
        have hout : (T.integer value (store before)).1 = output (S.integer value before).1 := by
          rw [h.integer]
        have hafter : (T.integer value (store before)).2 = store (S.integer value before).2 := by
          rw [h.integer]
        have hnext := maps_proceed h pending ((S.integer value before).1 :: operands)
          (S.integer value before).2 placed
        rw [← hafter, List.map_cons, ← hout] at hnext
        exact hnext
    | complete => exact maps_proceed h pending operands before placed

end Shunting

/-- Reading commutes with morphisms. -/
theorem parse_map {S : Semantics σ α} {T : Semantics τ β} {output : α → β} {store : σ → τ}
    (h : S.Morphism T output store) (text : String) (before : σ) :
    parse T text (store before) = (parse S text before).map output store := by
  obtain ⟨⟨verdict, scans⟩, hrun, hfound⟩ :=
    Option.map_eq_some_iff.mp (Shunting.parse_untilEnd S text before)
  have hmapped := Machine.process_of_shown (Shunting.maps_step h) hrun
  have hT := Shunting.parse_untilEnd T text (store before)
  rw [Shunting.parse, show Shunting.start (store before) =
    Shunting.map output store (Shunting.start before) from rfl,
    show ((.error (.syntactic .emptyExpression), store before) : Except Error β × τ) =
      Shunting.mapVerdict output store (.error (.syntactic .emptyExpression), before) from rfl,
    hmapped] at hT
  rw [← hfound, ← Option.some.inj hT]
  rfl

/-! ## Logs -/

def Run.logged (run : Run (σ × List (Call α)) α) : List (Call α) := run.store.2

def calls (S : Semantics σ α) (text : String) (store : σ) : List (Call α) :=
  (parse S.logging text (store, [])).logged

def Shunting.calls (S : Semantics σ α) (scans : List Scan) (store : σ) : Option (List (Call α)) :=
  (Shunting.parse S.logging scans (store, [])).map Run.logged

/-- The log does not change what is logged. -/
theorem parse_logging (S : Semantics σ α) (text : String) (store : σ) (log : List (Call α)) :
    (parse S.logging text (store, log)).map id Prod.fst = parse S text store :=
  (parse_map S.logging_morphism text (store, log)).symm

/-- The shunting yard makes the calls of the descent on the scans that the descent makes, which
are the first ones of the text; no scan behind them has a part in it. -/
theorem shunting_calls_eq (S : Semantics σ α) (text : String) (store : σ) :
    Shunting.calls S (Cursor.ofText text).untilEnd store = some (calls S text store) ∧
      (∃ unread, (Cursor.ofText text).untilEnd = (parse S text store).scans ++ unread) ∧
      (∀ others, Shunting.calls S ((parse S text store).scans ++ others) store =
        some (calls S text store)) ∧
      (parse S.logging text (store, [])).map id Prod.fst = parse S text store := by
  have hlog := parse_logging S text store []
  have hscans : (parse S text store).scans = (parse S.logging text (store, [])).scans := by
    rw [← hlog]
    rfl
  obtain ⟨hunread, hothers⟩ := Shunting.parse_scans S.logging text (store, [])
  rw [hscans]
  refine ⟨?_, hunread, ?_, hlog⟩
  · rw [Shunting.calls, Shunting.parse_untilEnd]
    rfl
  · intro others
    rw [Shunting.calls, hothers]
    rfl

end Expression

end Calculator
