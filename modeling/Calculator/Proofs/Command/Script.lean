import Calculator.Command.Job
import Calculator.Proofs.Agreement
import Calculator.Proofs.Lines
import Calculator.Proofs.Messages

/-!
# Scripts

A script does with each of its lines what the line does as an expression by itself. A line that is
blank is passed over, and an expression is empty only if it is blank; so no line of a script is
found to be an empty expression.
-/

namespace Calculator.Command

/-!
## Outcomes put together

What several pieces of work leave is what each of them leaves, in order. Of the lines of a text
only those leave anything that are not blank.
-/

def tried (lines : List (List Char)) : List String :=
  (lines.filter fun line => !Text.isBlank line).map String.ofList

namespace Outcome

@[simp] theorem empty_append (outcome : Outcome) : append {} outcome = outcome := by
  simp [append]

theorem append_assoc (first second third : Outcome) :
    append (append first second) third = append first (append second third) := by
  simp [append, Nat.max_assoc, String.append_assoc]

theorem printed_foldr (outcomes : List Outcome) :
    (outcomes.foldr append {}).printed = String.join (outcomes.map printed) := by
  induction outcomes with
  | nil => rfl
  | cons outcome outcomes ih =>
      rw [List.map_cons, String.join_cons, ← ih]
      rfl

theorem messages_foldr (outcomes : List Outcome) :
    (outcomes.foldr append {}).messages = outcomes.flatMap messages := by
  induction outcomes with
  | nil => rfl
  | cons outcome outcomes ih =>
      rw [List.flatMap_cons, ← ih]
      rfl

theorem foldr_append (first rest : List Outcome) :
    (first ++ rest).foldr append {} = append (first.foldr append {}) (rest.foldr append {}) := by
  induction first with
  | nil => simp
  | cons outcome first ih => rw [List.cons_append, List.foldr_cons, ih, ← append_assoc]; rfl

theorem exit_foldr_le {outcomes : List Outcome} {bound : Nat}
    (h : ∀ outcome ∈ outcomes, outcome.exit ≤ bound) :
    (outcomes.foldr append {}).exit ≤ bound := by
  induction outcomes with
  | nil => exact Nat.zero_le bound
  | cons outcome outcomes ih =>
      exact Nat.max_le.mpr ⟨h outcome List.mem_cons_self,
        ih fun other hm => h other (List.mem_cons_of_mem _ hm)⟩

theorem exit_le_foldr {outcomes : List Outcome} {outcome : Outcome} (hm : outcome ∈ outcomes) :
    outcome.exit ≤ (outcomes.foldr append {}).exit := by
  induction outcomes with
  | nil => cases hm
  | cons first outcomes ih =>
      rcases List.mem_cons.mp hm with rfl | hm
      · exact Nat.le_max_left _ _
      · exact Nat.le_trans (ih hm) (Nat.le_max_right _ _)

/-- Blank lines may as well not be there. -/
theorem foldr_ofLine (mode : Mode) (lines : List (List Char)) :
    (lines.map (ofLine mode)).foldr append {} =
      ((tried lines).map (ofExpression mode)).foldr append {} := by
  induction lines with
  | nil => rfl
  | cons line lines ih =>
      rw [List.map_cons, List.foldr_cons, ih, ofLine]
      by_cases hb : Text.isBlank line = true
      · rw [if_pos hb, empty_append, tried, tried, List.filter_cons_of_neg (by simp [hb])]
      · rw [if_neg hb, tried, tried, List.filter_cons_of_pos (by simp [hb])]
        rfl

theorem ofScript_eq {mode : Mode} {text : String} :
    ofScript mode text =
      ((tried (Text.lines text.toList)).map (ofExpression mode)).foldr append {} :=
  foldr_ofLine mode _

end Outcome

/-! ### Command lines -/

/-- An expression is safe from being taken for an option behind two dashes. -/
theorem run_expression (mode : Mode) (text : String) (file? : String → Option (List UInt8))
    (input : List UInt8) :
    run ["-m", mode.name, "--", text] file? input = Outcome.ofExpression mode text := by
  rcases mode with _ | (_ | _) | _
  all_goals rfl

theorem ofArguments_script (mode : Mode) (path : String) :
    Job.ofArguments ["-f", "-m", mode.name, "--", path] = .script mode path := by
  rcases mode with _ | (_ | _) | _
  all_goals rfl

theorem ofArguments_prompt (mode : Mode) : Job.ofArguments ["-m", mode.name] = .prompt mode := by
  rcases mode with _ | (_ | _) | _
  all_goals rfl

/-! ## Empty expressions -/

open Expression (evaluate_eq_empty_iff map_eq_error_iff translate_eq_empty_iff)

/-- Spaces alone are an expression that is empty, but they have tokens like any text. -/
theorem answer_eq_empty_iff {mode : Mode} {text : String} :
    mode.answer text = .error (.syntactic .emptyExpression) ↔
      mode ≠ .tokens ∧ Cursor.Gap text.toList := by
  cases mode with
  | value =>
      rw [Mode.answer, map_eq_error_iff, evaluate_eq_empty_iff]
      simp
  | translation style =>
      rw [Mode.answer, translate_eq_empty_iff]
      simp
  | tokens =>
      rw [Mode.answer]
      cases tokenize text <;> simp

theorem isBlank_of_gap {line : List Char} (h : Cursor.Gap line) : Text.isBlank line = true := by
  have hspaces : Cursor.spaces.all Text.isWhiteSpace = true := by decide
  exact List.all_eq_true.mpr fun c hc => List.all_eq_true.mp hspaces c (h c hc)

theorem answer_ne_empty {mode : Mode} {line : String} {lines : List (List Char)}
    (hm : line ∈ tried lines) : mode.answer line ≠ .error (.syntactic .emptyExpression) := by
  obtain ⟨chars, hchars, rfl⟩ := List.mem_map.mp hm
  have hblank : (!Text.isBlank chars) = true := (List.mem_filter.mp hchars).2
  intro h
  have hgap := (answer_eq_empty_iff.mp h).2
  rw [String.toList_ofList] at hgap
  rw [isBlank_of_gap hgap] at hblank
  cases hblank

/-! ### Attempts -/

/-- What a line leaves that is tried as an expression: all of its answer, or one message and no
answer. -/
inductive Attempted (mode : Mode) (line : String) : Outcome → Prop where
  | answered {answer : String} (found : mode.answer line = .ok answer) :
      Attempted mode line { printed := answer ++ "\n" }
  | refused {error : Error} (found : mode.answer line = .error error)
      (nonempty : error ≠ .syntactic .emptyExpression) :
      Attempted mode line { exit := 1, messages := [error.message] }

theorem attempted_ofExpression {mode : Mode} {line : String}
    (h : mode.answer line ≠ .error (.syntactic .emptyExpression)) :
    Attempted mode line (.ofExpression mode line) := by
  rw [Outcome.ofExpression]
  cases hanswer : mode.answer line with
  | ok answer => exact .answered hanswer
  | error error => exact .refused hanswer fun he => h (he ▸ hanswer)

namespace Attempted

variable {mode : Mode} {line : String} {outcome : Outcome}

theorem exit_le (h : Attempted mode line outcome) : outcome.exit ≤ 1 := by
  cases h with
  | answered => exact Nat.zero_le 1
  | refused => exact Nat.le_refl 1

/-- Not even the wording of a message is that of an empty expression. -/
theorem empty_notMem (h : Attempted mode line outcome) :
    (Error.syntactic .emptyExpression).message ∉ outcome.messages := by
  intro hm
  cases h with
  | answered => cases hm
  | refused found nonempty =>
      have hmessage := Error.message_eq_iff.mp (List.mem_singleton.mp hm)
      exact nonempty (Error.eq_of_reason_eq hmessage.2.symm)

end Attempted

/-- What a script leaves is what the lines leave that are tried, each by itself. -/
structure LineByLine (mode : Mode) (lines : List String) (attempt : String → Outcome)
    (script : Outcome) : Prop where
  attempted : ∀ line ∈ lines, Attempted mode line (attempt line)
  printed_eq : script.printed = String.join (lines.map fun line => (attempt line).printed)
  messages_eq : script.messages = lines.flatMap fun line => (attempt line).messages
  exit_of_failure : (∃ line ∈ lines, (attempt line).exit = 1) → script.exit = 1
  exit_of_success : (∀ line ∈ lines, (attempt line).exit = 0) → script.exit = 0
  empty_notMem : (Error.syntactic .emptyExpression).message ∉ script.messages

theorem lineByLine_ofScript (mode : Mode) (text : String) :
    LineByLine mode (tried (Text.lines text.toList)) (.ofExpression mode)
      (.ofScript mode text) := by
  have hattempted : ∀ line ∈ tried (Text.lines text.toList),
      Attempted mode line (.ofExpression mode line) :=
    fun line hm => attempted_ofExpression (answer_ne_empty hm)
  rw [Outcome.ofScript_eq]
  refine ⟨hattempted, ?_, ?_, ?_, ?_, ?_⟩
  · rw [Outcome.printed_foldr, List.map_map]
    rfl
  · rw [Outcome.messages_foldr, List.flatMap_map]
  · rintro ⟨line, hm, hexit⟩
    have hle := Outcome.exit_le_foldr (List.mem_map_of_mem (f := Outcome.ofExpression mode) hm)
    rw [hexit] at hle
    refine Nat.le_antisymm (Outcome.exit_foldr_le fun outcome ho => ?_) hle
    obtain ⟨other, hother, rfl⟩ := List.mem_map.mp ho
    exact (hattempted other hother).exit_le
  · intro h
    refine Nat.le_zero.mp (Outcome.exit_foldr_le fun outcome ho => ?_)
    obtain ⟨line, hm, rfl⟩ := List.mem_map.mp ho
    exact Nat.le_of_eq (h line hm)
  · rw [Outcome.messages_foldr, List.flatMap_map]
    intro hm
    obtain ⟨line, hline, hmessage⟩ := List.mem_flatMap.mp hm
    exact (hattempted line hline).empty_notMem hmessage

/-! ### Running a script -/

theorem ofFile_eq_ofScript {mode : Mode} {path : String} (text : String) :
    Outcome.ofFile mode path (some text.toUTF8.data.toList) = .ofScript mode text := by
  rw [Outcome.ofFile, Option.bind_some, Text.data_toUTF8, Text.decode?_encode,
    String.ofList_toList]

theorem run_script {arguments : List String} {mode : Mode} {path : String}
    (hjob : Job.ofArguments arguments = .script mode path)
    (file? : String → Option (List UInt8)) (input : List UInt8) :
    run arguments file? input = .ofFile mode path (file? path) := by
  rw [run, hjob]
  rfl

/-- A script leaves what its lines leave as expressions by themselves, blank lines apart. Blank
lines are more than empty expressions: those are only the lines of spaces that may also stand
between tokens. -/
theorem script_line_by_line {arguments : List String} {mode : Mode} {path text : String}
    (file? : String → Option (List UInt8)) (input : List UInt8)
    (hjob : Job.ofArguments arguments = .script mode path)
    (hfile : file? path = some text.toUTF8.data.toList) :
    (∃ lines, Text.Lined '\n' '\r' text.toList lines ∧
      LineByLine mode (tried lines) (fun line => run ["-m", mode.name, "--", line] file? input)
        (run arguments file? input)) ∧
    ∀ blank : String, Cursor.Gap blank.toList → mode ≠ .tokens →
      run ["-m", mode.name, "--", blank] file? input =
        { exit := 1, messages := [(Error.syntactic .emptyExpression).message] } := by
  simp only [run_script hjob, hfile, ofFile_eq_ofScript, run_expression]
  refine ⟨⟨_, Text.lined_splitLines (by decide) text.toList, lineByLine_ofScript mode text⟩, ?_⟩
  intro blank hgap hmode
  rw [Outcome.ofExpression, answer_eq_empty_iff.mpr ⟨hmode, hgap⟩]

/-- A line that fails, a line with nothing but a no-break space, and a line that is answered. -/
theorem script_line_by_line_of_unclosed :
    Job.ofArguments ["-f", "-m", "rpn", "--", "sums"] =
        .script (.translation .reversePolish) "sums" ∧
      LineByLine (.translation .reversePolish) ["(1", "2 * 3"]
        (fun line => run ["-m", "rpn", "--", line]
          (fun _ => some "(1\r\n\u00a0\n2 * 3\n".toUTF8.data.toList) [])
        (run ["-f", "-m", "rpn", "--", "sums"]
          (fun _ => some "(1\r\n\u00a0\n2 * 3\n".toUTF8.data.toList) []) := by
  have hjob := ofArguments_script (.translation .reversePolish) "sums"
  obtain ⟨⟨lines, hlined, hscript⟩, -⟩ := script_line_by_line
    (fun _ => some "(1\r\n\u00a0\n2 * 3\n".toUTF8.data.toList) [] hjob rfl
  have htried : tried lines = ["(1", "2 * 3"] := by
    rw [← hlined.splitLines_eq (by decide)]
    decide
  rw [htried] at hscript
  exact ⟨hjob, hscript⟩

end Calculator.Command
