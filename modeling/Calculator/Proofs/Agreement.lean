import Calculator.Proofs.Faults
import Calculator.Proofs.Shunting.Failing
import Calculator.Proofs.Verdict

/-!
# Evaluation and translation side by side

Evaluating a text and writing it in another notation go the same way until an operator cannot be
applied. That operator has been read with its right operand then, so whatever else is wrong with
the text is wrong behind it.
-/

namespace Calculator

variable {σ α : Type}

theorem Semantics.outlasted_blank (S : Semantics σ α) :
    S.Outlasted .blank (fun _ => ()) fun _ => () where
  integer _ _ := rfl
  binary _ := rfl

theorem arithmetic_located : arithmetic.Located := fun h => (arithmetic_accountable h).2

namespace Expression

/-! ## Machines side by side -/

namespace Shunting

/-- What the automaton sees of a machine with any operands. -/
def survey (machine : Shunting σ α) : Automaton :=
  view (map (fun _ => ()) (fun _ => ()) machine)

def Ahead (pending : List Mark) (scans : List Scan) : Prop :=
  ∀ mark ∈ pending, ∀ scan ∈ scans, mark.offset < scan.offset

variable {S : Semantics σ α}

theorem Ahead.step {machine after : Shunting σ α} {scan : Scan} {scans : List Scan}
    (h : Ahead machine.pending (scan :: scans))
    (hscan : ∀ later ∈ scans, scan.offset < later.offset)
    (hstep : Shunting.step S machine scan = .next after) : Ahead after.pending scans := by
  intro mark hmem later hlater
  rcases pending_of_step hstep hmem with hm | ho
  · exact h mark hm later (List.mem_cons_of_mem _ hlater)
  · rw [ho]
    exact hscan later hlater

/-- The machine comes to the verdict of the automaton, or stops at a call that failed before the
automaton would have found anything wrong. -/
theorem verdict_or_failed (hS : S.Located) {machine : Shunting σ α} {scans : List Scan}
    {result : Except Error α} {final : σ}
    (hv : Machine.verdict (step S) machine scans = some (result, final))
    (hahead : Ahead machine.pending scans)
    (hsorted : scans.Pairwise fun first second => first.offset < second.offset) :
    Machine.verdict Automaton.step (survey machine) scans = some (result.map fun _ => ()) ∨
      ∃ error, result = .error (.evaluation error) ∧
        ∀ other, Machine.verdict Automaton.step (survey machine) scans = some (.error other) →
          error.offset < other.offset := by
  induction scans generalizing machine with
  | nil => cases hv
  | cons scan scans ih =>
      rcases strays_step S.outlasted_blank machine scan with
        hmaps | ⟨error, after, hstep, mark, hmem, hfails⟩
      · have hshown := hmaps.trans (seen_step _ scan)
        simp only [Machine.verdict] at hv ⊢
        cases hstep : step S machine scan with
        | next after =>
            rw [hstep] at hv hshown
            rw [show Automaton.step (survey machine) scan = .next (survey after) from hshown]
            obtain ⟨hfirst, hrest⟩ := List.pairwise_cons.mp hsorted
            exact ih hv (hahead.step hfirst hstep) hrest
        | halt verdict =>
            rw [hstep] at hv hshown
            cases hv
            rw [show Automaton.step (survey machine) scan = .halt (result.map fun _ => ())
              from hshown]
            exact .inl rfl
        | stuck =>
            rw [hstep] at hv
            cases hv
      · rw [Machine.verdict, hstep] at hv
        cases hv
        refine .inr ⟨error, rfl, ?_⟩
        intro other hother
        obtain ⟨later, hlater, habout⟩ := Automaton.verdict_about hother
        cases hfails with
        | intro left right before call =>
            rw [hS call, habout.offset_eq]
            exact hahead _ hmem later hlater

end Shunting

/-- With calls that fail where their operators stand, a text is read as the automaton reads it, or
one of them fails before anything else is found to be wrong. -/
theorem parse_or_failed {S : Semantics σ α} (hS : S.Located) (text : String) (store : σ) :
    check text = (parse S text store).result.map (fun _ => ()) ∨
      ∃ error, (parse S text store).result = .error (.evaluation error) ∧
        ∀ other, check text = .error other → error.offset < other.offset := by
  cases h : Machine.isEmpty (Cursor.ofText text).untilEnd with
  | true =>
      rw [Shunting.parse_of_isEmpty S h, check, Shunting.parse_of_isEmpty .blank h]
      exact .inl rfl
  | false =>
      have hverdict := verdict_check h
      have hahead : Shunting.Ahead (Shunting.start store : Shunting σ α).pending
          (Cursor.ofText text).untilEnd := by
        intro mark hmem
        simp [Shunting.start] at hmem
      rcases Shunting.verdict_or_failed hS (Shunting.verdict_untilEnd S h store) hahead
        (Cursor.pairwise_untilEnd text) with hsame | ⟨error, herror, hlater⟩
      · rw [show Shunting.survey (Shunting.start store : Shunting σ α) = ⟨false, []⟩ from rfl,
          hverdict] at hsame
        exact .inl (Option.some.inj hsame)
      · refine .inr ⟨error, herror, ?_⟩
        intro other hother
        refine hlater other ?_
        rw [show Shunting.survey (Shunting.start store : Shunting σ α) = ⟨false, []⟩ from rfl,
          hverdict, hother]

/-! ## Evaluating and translating -/

/-- What evaluating a text and writing it in another notation have in common. -/
structure Agree (evaluated : Except Error Int64) (written : Except Error String) : Prop where
  no_evaluation : ∀ error, written ≠ .error (.evaluation error)
  written_of_value : ∀ value, evaluated = .ok value → ∃ answer, written = .ok answer
  same_error : ∀ error, evaluated = .error error → (∀ other, error ≠ .evaluation other) →
    written = .error error
  no_earlier_error : ∀ error, evaluated = .error (.evaluation error) →
    (∃ answer, written = .ok answer) ∨
      ∃ later, written = .error later ∧ error.offset < later.offset
  no_later_error : ∀ error, written = .error error →
    evaluated = .error error ∨
      ∃ earlier, evaluated = .error (.evaluation earlier) ∧ earlier.offset < error.offset

theorem agree_translate (style : Notation) (text : String) :
    Agree (evaluate text) (translate style text) := by
  have hno := check_ne_evaluation text
  -- Evaluation gives what `check` gives, or an error in front of the one that `check` gives.
  have hevaluate : check text = (evaluate text).map (fun _ => ()) ∨
      ∃ error, evaluate text = .error (.evaluation error) ∧
        ∀ other, check text = .error other → error.offset < other.offset :=
    parse_or_failed arithmetic_located text ()
  refine ⟨?_, ?_, ?_, ?_, ?_⟩
  · intro error h
    exact hno error (translate_eq_error_iff.mp h)
  · intro value h
    rcases hevaluate with hsame | ⟨error, herror, _⟩
    · rw [h] at hsame
      exact exists_translate_iff.mpr hsame
    · rw [h] at herror
      cases herror
  · intro error h hother
    rcases hevaluate with hsame | ⟨error', herror, _⟩
    · rw [h] at hsame
      exact translate_eq_error_iff.mpr hsame
    · rw [h] at herror
      cases herror
      exact absurd rfl (hother error')
  · intro error h
    rcases hevaluate with hsame | ⟨error', herror, hlater⟩
    · rw [h] at hsame
      exact absurd hsame (hno error)
    · rw [h] at herror
      cases herror
      cases hc : check text with
      | ok _ => exact .inl (exists_translate_iff.mpr hc)
      | error later => exact .inr ⟨later, translate_eq_error_iff.mpr hc, hlater later hc⟩
  · intro error h
    have hc := translate_eq_error_iff.mp h
    rcases hevaluate with hsame | ⟨earlier, herror, hlater⟩
    · exact .inl (map_eq_error_iff.mp (hsame.symm.trans hc))
    · exact .inr ⟨earlier, herror, hlater error hc⟩

theorem translate_eq_empty_iff {style : Notation} {text : String} :
    translate style text = .error (.syntactic .emptyExpression) ↔ Cursor.Gap text.toList :=
  translate_eq_error_iff.trans check_eq_empty_iff

theorem evaluate_eq_empty_iff {text : String} :
    evaluate text = .error (.syntactic .emptyExpression) ↔ Cursor.Gap text.toList := by
  have hagree := agree_translate .lisp text
  constructor
  · intro h
    exact translate_eq_empty_iff.mp (hagree.same_error _ h (by simp))
  · intro h
    rcases hagree.no_later_error _ (translate_eq_empty_iff.mpr h) with hsame | ⟨earlier, _, hlt⟩
    · exact hsame
    · cases hlt

/-- Both notations fail alike. Evaluation fails as they do, unless an operator cannot be applied:
then they have no error, or one that stands behind that operator. -/
theorem evaluate_agree_translate (text : String) :
    ((∃ polish lisp, translate .reversePolish text = .ok polish ∧
        translate .lisp text = .ok lisp) ∨
      ∃ error, translate .reversePolish text = .error error ∧
        translate .lisp text = .error error) ∧
      ∀ style, Agree (evaluate text) (translate style text) := by
  refine ⟨?_, fun style => agree_translate style text⟩
  cases hc : check text with
  | ok _ =>
      obtain ⟨polish, hpolish⟩ := exists_translate_iff.mpr hc
      obtain ⟨lisp, hlisp⟩ := exists_translate_iff.mpr hc
      exact .inl ⟨polish, lisp, hpolish, hlisp⟩
  | error error =>
      exact .inr ⟨error, translate_eq_error_iff.mpr hc, translate_eq_error_iff.mpr hc⟩

end Expression

end Calculator
