import Calculator.Proofs.Automaton
import Calculator.Proofs.Tiling

/-!
# Verdicts

What the automaton finds wrong with a text is always wrong with one of its scans, and it is the
same whatever the text is read for, as long as no operator fails.
-/

namespace Calculator

/-- The scan at which an error is found. An error that no single scan is at fault for has none. -/
inductive Error.About : Error → Scan → Prop where
  | lexical (error : LexError) : About (.lexical error) (.error error)
  | expectedOperand (found : Token.Placed) : About (.syntactic (.expectedOperand found)) (.ok found)
  | unclosedParenthesis (openedAt : Nat) (found : Token.Placed) :
      About (.syntactic (.unclosedParenthesis openedAt found)) (.ok found)
  | trailingInput (found : Token.Placed) : About (.syntactic (.trailingInput found)) (.ok found)
  | nestingTooDeep (limit offset : Nat) :
      About (.syntactic (.nestingTooDeep limit offset)) (.ok ⟨.leftParen, offset⟩)

namespace Error.About

variable {error : Error} {scan : Scan}

theorem offset_eq (h : error.About scan) : error.offset = scan.offset := by
  cases h <;> rfl

theorem ne_evaluation (h : error.About scan) (other : EvaluationError) :
    error ≠ .evaluation other := by
  cases h <;> simp

end Error.About

namespace Machine

variable {μ ω : Type} {step : μ → Scan → Step μ ω}

theorem verdict_append {machine : μ} {scans : List Scan} {found : ω}
    (h : verdict step machine scans = some found) (others : List Scan) :
    verdict step machine (scans ++ others) = some found := by
  induction scans generalizing machine with
  | nil => cases h
  | cons scan scans ih =>
      rw [List.cons_append]
      simp only [verdict] at h ⊢
      cases hstep : step machine scan with
      | next after =>
          rw [hstep] at h
          exact ih h
      | halt verdict =>
          rw [hstep] at h
          exact h
      | stuck =>
          rw [hstep] at h
          cases h

/-- What stands behind some scans matters only if a machine goes past all of them. -/
theorem settled_or_past (step : μ → Scan → Step μ ω) (machine : μ) (scans : List Scan) :
    (∀ others, verdict step machine (scans ++ others) = verdict step machine scans) ∨
      ∃ past, ∀ others, verdict step machine (scans ++ others) = verdict step past others := by
  induction scans generalizing machine with
  | nil => exact .inr ⟨machine, fun _ => rfl⟩
  | cons scan scans ih =>
      simp only [List.cons_append, verdict]
      cases step machine scan with
      | next after => exact ih after
      | halt found => exact .inl fun _ => rfl
      | stuck => exact .inl fun _ => rfl

/-- A machine halts at one of the first scans, or goes past all of them. -/
theorem verdict_or_past (step : μ → Scan → Step μ ω) (machine : μ) (scans : List Scan)
    (hs : ∀ machine scan, step machine scan ≠ .stuck) :
    (∃ before scan after middle found, scans = before ++ scan :: after ∧
      step middle scan = .halt found ∧ verdict step machine scans = some found) ∨
    ∃ past, ∀ others, verdict step machine (scans ++ others) = verdict step past others := by
  induction scans generalizing machine with
  | nil => exact .inr ⟨machine, fun _ => rfl⟩
  | cons scan scans ih =>
      cases hstep : step machine scan with
      | next after =>
          rcases ih after with ⟨before, last, behind, middle, found, rfl, hhalt, hv⟩ | ⟨past, hpast⟩
          · refine .inl ⟨scan :: before, last, behind, middle, found, rfl, hhalt, ?_⟩
            simpa only [verdict, hstep] using hv
          · refine .inr ⟨past, fun others => ?_⟩
            rw [List.cons_append, verdict, hstep]
            exact hpast others
      | halt found =>
          exact .inl ⟨[], scan, scans, machine, found, rfl, hstep, by rw [verdict, hstep]⟩
      | stuck => exact absurd hstep (hs machine scan)

end Machine

namespace Expression

def check (text : String) : Except Error Unit := (parse .blank text ()).result

theorem check_eq_translate (style : Notation) (text : String) :
    check text = (translate style text).map fun _ => () :=
  congrArg Run.result (parse_map style.semantics_blank text ())

theorem map_eq_ok_iff {ε α : Type} {result : Except ε α} :
    result.map (fun _ => ()) = .ok () ↔ ∃ value, result = .ok value := by
  cases result <;> simp [Except.map]

theorem map_eq_error_iff {ε α β : Type} {f : α → β} {result : Except ε α} {error : ε} :
    result.map f = .error error ↔ result = .error error := by
  cases result <;> simp [Except.map]

theorem exists_translate_iff {style : Notation} {text : String} :
    (∃ answer, translate style text = .ok answer) ↔ check text = .ok () := by
  rw [check_eq_translate style, map_eq_ok_iff]

theorem translate_eq_error_iff {style : Notation} {text : String} {error : Error} :
    translate style text = .error error ↔ check text = .error error := by
  rw [check_eq_translate style, map_eq_error_iff]

namespace Automaton

inductive Decided (scan : Scan) : Step → Prop where
  | next (after : Automaton) : Decided scan (.next after)
  | accept : Decided scan (.halt (.ok ()))
  | reject {error : Error} (about : error.About scan) : Decided scan (.halt (.error error))

theorem decided_want (opened : List Nat) (placed : Token.Placed) :
    Decided (.ok placed) (want opened placed) := by
  obtain ⟨token, offset⟩ := placed
  cases token with
  | integer value => exact .next _
  | leftParen =>
      simp only [want]
      split
      · exact .next _
      · exact .reject (.nestingTooDeep 256 offset)
  | operator op => exact .reject (.expectedOperand _)
  | rightParen => exact .reject (.expectedOperand _)
  | endOfInput => exact .reject (.expectedOperand _)

theorem decided_follow (opened : List Nat) (placed : Token.Placed) :
    Decided (.ok placed) (follow opened placed) := by
  unfold follow
  split
  · exact .next _
  · cases opened with
    | nil =>
        dsimp only
        split
        · exact .accept
        · exact .reject (.trailingInput placed)
    | cons openedAt below =>
        dsimp only
        split
        · exact .next _
        · exact .reject (.unclosedParenthesis openedAt placed)

theorem decided_step (automaton : Automaton) (scan : Scan) :
    Decided scan (step automaton scan) := by
  rcases scan with failure | placed
  · exact .reject (.lexical failure)
  · unfold step
    dsimp only
    split
    · exact decided_follow automaton.opened placed
    · exact decided_want automaton.opened placed

theorem step_ne_stuck (automaton : Automaton) (scan : Scan) : step automaton scan ≠ .stuck := by
  intro hstep
  have hdecided := decided_step automaton scan
  rw [hstep] at hdecided
  cases hdecided

theorem step_about {automaton : Automaton} {scan : Scan} {error : Error}
    (h : step automaton scan = .halt (.error error)) : error.About scan := by
  have hdecided := decided_step automaton scan
  rw [h] at hdecided
  cases hdecided with
  | reject about => exact about

theorem verdict_about {automaton : Automaton} {scans : List Scan} {error : Error}
    (h : Machine.verdict step automaton scans = some (.error error)) :
    ∃ scan ∈ scans, error.About scan := by
  rcases Machine.verdict_or_past step automaton scans step_ne_stuck with
    ⟨before, scan, after, middle, found, rfl, hhalt, hv⟩ | ⟨past, hpast⟩
  · rw [h] at hv
    cases hv
    exact ⟨scan, by simp, step_about hhalt⟩
  · have hnone := hpast []
    rw [List.append_nil, h] at hnone
    cases hnone

/-- Scans behind the one that an error is about have no part in it. -/
theorem verdict_of_append {automaton : Automaton} {scans others : List Scan} {error : Error}
    (h : Machine.verdict step automaton (scans ++ others) = some (.error error))
    (hothers : ∀ scan ∈ others, scan.offset ≠ error.offset) :
    Machine.verdict step automaton scans = some (.error error) := by
  rcases Machine.verdict_or_past step automaton scans step_ne_stuck with
    ⟨before, scan, after, middle, found, _, _, hv⟩ | ⟨past, hpast⟩
  · rw [Machine.verdict_append hv others] at h
    rw [hv, h]
  · rw [hpast others] at h
    obtain ⟨scan, hmem, habout⟩ := verdict_about h
    exact absurd habout.offset_eq.symm (hothers scan hmem)

/-- Before the scan that an error is about the automaton has gone on. -/
theorem exists_past {automaton : Automaton} {scans others : List Scan} {error : Error}
    (h : Machine.verdict step automaton (scans ++ others) = some (.error error))
    (hscans : ∀ scan ∈ scans, scan.offset ≠ error.offset) :
    ∃ past, ∀ others, Machine.verdict step automaton (scans ++ others) =
      Machine.verdict step past others := by
  rcases Machine.verdict_or_past step automaton scans step_ne_stuck with
    ⟨before, scan, after, middle, found, rfl, hhalt, hv⟩ | hpast
  · rw [Machine.verdict_append hv others] at h
    cases h
    exact absurd (step_about hhalt).offset_eq.symm (hscans scan (by simp))
  · exact hpast

end Automaton

/-! ## Verdicts on texts -/

namespace Shunting

variable {σ α : Type} (S : Semantics σ α)

/-- A text without tokens leaves the store alone. -/
theorem parse_eq_of_isEmpty {text : String}
    (h : Machine.isEmpty (Cursor.ofText text).untilEnd = true) (store : σ) :
    Expression.parse S text store =
      ⟨.error (.syntactic .emptyExpression), store, (Cursor.ofText text).untilEnd.take 1⟩ := by
  have hparse := parse_untilEnd S text store
  rw [parse, Machine.process, if_pos h] at hparse
  exact (Option.some.inj hparse).symm

theorem parse_of_isEmpty {text : String}
    (h : Machine.isEmpty (Cursor.ofText text).untilEnd = true) (store : σ) :
    (Expression.parse S text store).result = .error (.syntactic .emptyExpression) :=
  congrArg Run.result (parse_eq_of_isEmpty S h store)

theorem run_untilEnd {text : String}
    (h : Machine.isEmpty (Cursor.ofText text).untilEnd = false) (store : σ) :
    Machine.run (step S) (start store) [] (Cursor.ofText text).untilEnd =
      some (((Expression.parse S text store).result, (Expression.parse S text store).store),
        (Expression.parse S text store).scans) := by
  obtain ⟨found, hrun, hfound⟩ := Option.map_eq_some_iff.mp (parse_untilEnd S text store)
  rw [Machine.process, h, if_neg Bool.false_ne_true] at hrun
  rw [hrun, ← hfound]
  rfl

theorem verdict_untilEnd {text : String}
    (h : Machine.isEmpty (Cursor.ofText text).untilEnd = false) (store : σ) :
    Machine.verdict (step S) (start store) (Cursor.ofText text).untilEnd =
      some ((Expression.parse S text store).result, (Expression.parse S text store).store) := by
  rw [← Machine.map_run (step S) (start store) [], run_untilEnd S h]
  rfl

end Shunting

theorem verdict_check {text : String}
    (h : Machine.isEmpty (Cursor.ofText text).untilEnd = false) :
    Machine.verdict Automaton.step ⟨false, []⟩ (Cursor.ofText text).untilEnd =
      some (check text) := by
  have hrun := automaton_run_eq Notation.lisp.semantics_blank text ()
  rw [Automaton.run, Machine.process, h, if_neg Bool.false_ne_true] at hrun
  rw [← Machine.map_run Automaton.step _ [], hrun, check_eq_translate .lisp]
  rfl

theorem isEmpty_of_gap {text : String} (h : Cursor.Tiling [] text.toList []) :
    Machine.isEmpty (Cursor.ofText text).untilEnd = true := by
  rw [show Cursor.ofText text = ⟨text.toList, Text.width []⟩ from rfl,
    Cursor.untilEnd_endOfInput (Cursor.Tiling.next_gap h.gap_of_nil) rfl]
  rfl

theorem isEmpty_of_lexeme {text : String} {scan : Scan} {others : List Scan}
    (h : Cursor.Tiling [] text.toList (scan :: others)) :
    Machine.isEmpty (Cursor.ofText text).untilEnd = false := by
  obtain ⟨unread, hunread⟩ := h.exists_unread
  change _ = (Cursor.ofText text).untilEnd ++ unread at hunread
  cases hscans : (Cursor.ofText text).untilEnd with
  | nil => rfl
  | cons first rest =>
      rw [hscans] at hunread
      obtain rfl : scan = first := (List.cons.inj hunread).1
      cases scan with
      | error error => rfl
      | ok placed =>
          obtain ⟨_, _, _, _, hlexeme⟩ := h.exists_lexeme_of_mem List.mem_cons_self
          simp [Machine.isEmpty, hlexeme.token_ne]

/-- The machine comes to what a reader comes to, whatever stands behind the first lexeme that cannot
be scanned. -/
theorem Shunting.verdict_of_tiling {σ α : Type} (S : Semantics σ α) {text : String}
    {found : List Scan} (hne : found ≠ []) (h : Cursor.Tiling [] text.toList found) (store : σ) :
    Machine.verdict (step S) (start store) (found ++ [Scan.ending text.utf8ByteSize]) =
      some ((Expression.parse S text store).result, (Expression.parse S text store).store) := by
  obtain ⟨unread, hunread⟩ := h.exists_unread
  rw [List.nil_append, Text.width_toList] at hunread
  cases found with
  | nil => exact absurd rfl hne
  | cons scan others =>
      rw [hunread]
      exact Machine.verdict_append (verdict_untilEnd S (isEmpty_of_lexeme h) store) unread

/-- The automaton decides about all lexemes of a text as it does about those up to the first that
cannot be scanned. -/
theorem verdict_of_tiling {text : String} {found : List Scan} (hne : found ≠ [])
    (h : Cursor.Tiling [] text.toList found) :
    Machine.verdict Automaton.step ⟨false, []⟩ (found ++ [Scan.ending text.utf8ByteSize]) =
      some (check text) := by
  obtain ⟨unread, hunread⟩ := h.exists_unread
  rw [List.nil_append, Text.width_toList] at hunread
  cases found with
  | nil => exact absurd rfl hne
  | cons scan others =>
      rw [hunread]
      exact Machine.verdict_append (verdict_check (isEmpty_of_lexeme h)) unread

theorem check_of_gap {text : String} (h : Cursor.Tiling [] text.toList []) :
    check text = .error (.syntactic .emptyExpression) :=
  Shunting.parse_of_isEmpty .blank (isEmpty_of_gap h) ()

theorem check_eq_empty_iff {text : String} :
    check text = .error (.syntactic .emptyExpression) ↔ Cursor.Gap text.toList := by
  constructor
  · intro h
    obtain ⟨found, htiling⟩ := Cursor.exists_tiling_of_text text
    cases found with
    | nil => exact htiling.gap_of_nil
    | cons scan others =>
        have hverdict := verdict_of_tiling (List.cons_ne_nil scan others) htiling
        rw [h] at hverdict
        obtain ⟨about, _, habout⟩ := Automaton.verdict_about hverdict
        cases habout
  · intro h
    exact check_of_gap (.gap [] h)

theorem check_ne_evaluation (text : String) (error : EvaluationError) :
    check text ≠ .error (.evaluation error) := by
  intro h
  cases he : Machine.isEmpty (Cursor.ofText text).untilEnd with
  | true =>
      rw [check, Shunting.parse_of_isEmpty .blank he] at h
      cases h
  | false =>
      have hverdict := verdict_check he
      rw [h] at hverdict
      obtain ⟨scan, _, habout⟩ := Automaton.verdict_about hverdict
      exact habout.ne_evaluation error rfl

end Expression

end Calculator
