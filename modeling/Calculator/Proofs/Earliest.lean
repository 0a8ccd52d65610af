import Calculator.Proofs.Verdict

/-!
# Earliest errors

An error is found as soon as it can be: what stands in front of it is the beginning of an
expression, and with the lexeme at which it is found no text is one.
-/

namespace Calculator.Expression

open Cursor (Tiling Lexeme Apart Gap DigitRun exists_tiling)

/-! ## Beginnings of expressions -/

/-- Behind a complete operand, parentheses that are open may be closed. -/
theorem exists_closing (opened : List Nat) (passed : List Char) :
    ∃ found, Tiling passed (List.replicate opened.length ')') found ∧
      ∀ offset, Machine.verdict Automaton.step ⟨true, opened⟩ (found ++ [Scan.ending offset]) =
        some (.ok ()) := by
  induction opened generalizing passed with
  | nil => exact ⟨[], .gap passed (by simp [Gap]), fun _ => rfl⟩
  | cons openedAt opened ih =>
      obtain ⟨found, htiling, hverdict⟩ := ih (passed ++ [] ++ [')'])
      exact ⟨_, .lexeme (by simp [Gap]) (.rightParen _) htiling, hverdict⟩

/-- Whatever the automaton has accepted so far may be completed. -/
theorem exists_completion (automaton : Automaton) (passed : List Char) :
    ∃ more found, Tiling passed more found ∧
      ∀ offset, Machine.verdict Automaton.step automaton (found ++ [Scan.ending offset]) =
        some (.ok ()) := by
  have hspace : Gap [' '] := by simp [Gap, Cursor.spaces]
  obtain ⟨complete, opened⟩ := automaton
  cases complete with
  | true =>
      obtain ⟨found, htiling, hverdict⟩ := exists_closing opened (passed ++ [' '])
      exact ⟨_, found, htiling.behind_gap hspace, hverdict⟩
  | false =>
      obtain ⟨found, htiling, hverdict⟩ := exists_closing opened (passed ++ [' '] ++ ['0'])
      have hrun : DigitRun (passed ++ [' ']) ['0'] (List.replicate opened.length ')') := by
        refine ⟨by simp, by simp, by simp, ?_⟩
        cases opened <;> simp [List.replicate_succ]
      exact ⟨_, _, .lexeme hspace (.integer hrun 0 rfl) htiling, hverdict⟩

/-! ## Parts of a text -/

theorem verdict_of_error {text : String} {error : Error} {found : List Scan}
    (htiling : Tiling [] text.toList found) (h : check text = .error error)
    (hne : error ≠ .syntactic .emptyExpression) :
    Machine.verdict Automaton.step ⟨false, []⟩ (found ++ [Scan.ending text.utf8ByteSize]) =
      some (.error error) := by
  rw [← h]
  refine verdict_of_tiling ?_ htiling
  rintro rfl
  rw [check_of_gap htiling] at h
  exact hne (Except.error.inj h).symm

/-- The scans on both sides of a place at which no number is cut. -/
theorem exists_split {text : String} {error : Error} {front after : List Char}
    (htext : text.toList = front ++ after) (ha : Apart front after)
    (h : check text = .error error) (hne : error ≠ .syntactic .emptyExpression) :
    ∃ first second, Tiling [] front first ∧
      (∀ scan ∈ second, Text.width front ≤ scan.offset) ∧
      Machine.verdict Automaton.step ⟨false, []⟩ (first ++ second) = some (.error error) := by
  obtain ⟨first, hfirst⟩ := exists_tiling (Apart.nil_left front)
  obtain ⟨second, hsecond⟩ := exists_tiling ha
  have htiling : Tiling [] text.toList (first ++ second) := by
    rw [htext]
    exact hfirst.append hsecond
  have hverdict := verdict_of_error htiling h hne
  rw [List.append_assoc] at hverdict
  refine ⟨first, second ++ [Scan.ending text.utf8ByteSize], hfirst, ?_, hverdict⟩
  intro scan hmem
  rcases List.mem_append.mp hmem with hm | hm
  · exact (hsecond.offset_bounds hm).1
  · rw [List.mem_singleton.mp hm, ← Text.width_toList, htext, Text.width_append]
    exact Nat.le_add_right _ _

theorem check_of_verdict {chars : List Char} {found : List Scan} {verdict : Except Error Unit}
    (hne : found ≠ []) (htiling : Tiling [] chars found)
    (h : ∀ offset, Machine.verdict Automaton.step ⟨false, []⟩ (found ++ [Scan.ending offset]) =
      some verdict) : check (String.ofList chars) = verdict := by
  rw [← String.toList_ofList (l := chars)] at htiling
  have hcheck := verdict_of_tiling hne htiling
  rw [h] at hcheck
  exact (Option.some.inj hcheck).symm

section

variable {text : String} {error : Error} {front after : List Char}
  (htext : text.toList = front ++ after) (ha : Apart front after)
  (h : check text = .error error) (hne : error ≠ .syntactic .emptyExpression)

include htext ha h hne

/-- What stands in front of an error may be completed. -/
theorem exists_accepted (hoffset : error.offset = Text.width front) :
    ∃ more, check (String.ofList (front ++ more)) = .ok () := by
  obtain ⟨first, second, hfirst, _, hverdict⟩ := exists_split htext ha h hne
  obtain ⟨past, hpast⟩ := Automaton.exists_past hverdict fun scan hmem => by
    have hbounds := hfirst.offset_bounds hmem
    rw [List.nil_append] at hbounds
    omega
  obtain ⟨more, found, hmore, hclosed⟩ := exists_completion past front
  have haccepted : ∀ offset, Machine.verdict Automaton.step ⟨false, []⟩
      (first ++ found ++ [Scan.ending offset]) = some (.ok ()) := by
    intro offset
    rw [List.append_assoc, hpast]
    exact hclosed offset
  refine ⟨more, check_of_verdict ?_ (hfirst.append hmore) haccepted⟩
  intro hempty
  have hend := haccepted 0
  rw [hempty] at hend
  cases hend

/-- What stands behind the lexeme of an error has no part in it. -/
theorem check_continued (hoffset : error.offset < Text.width front) {other : List Char}
    (ho : Apart front other) : check (String.ofList (front ++ other)) = .error error := by
  obtain ⟨first, second, hfirst, hsecond, hverdict⟩ := exists_split htext ha h hne
  have hrejected := Automaton.verdict_of_append hverdict fun scan hmem => by
    have hlater := hsecond scan hmem
    omega
  obtain ⟨instead, hinstead⟩ := exists_tiling ho
  refine check_of_verdict ?_ (hfirst.append hinstead) ?_
  · intro hempty
    rw [(List.append_eq_nil_iff.mp hempty).1] at hrejected
    cases hrejected
  · intro offset
    rw [List.append_assoc, Machine.verdict_append hrejected]

end

/-! ## The lexeme of an error -/

theorem exists_about {text : String} {error : Error} (h : check text = .error error)
    (hne : error ≠ .syntactic .emptyExpression) :
    ∃ front after scan, text.toList = front ++ after ∧ error.About scan ∧
      Text.width front = error.offset ∧
      (after = [] ∧ scan = Scan.ending text.utf8ByteSize ∨
        ∃ lexeme rest, after = lexeme ++ rest ∧ Lexeme front lexeme rest scan) := by
  obtain ⟨found, htiling⟩ := Cursor.exists_tiling_of_text text
  obtain ⟨scan, hmem, habout⟩ := Automaton.verdict_about (verdict_of_error htiling h hne)
  rw [habout.offset_eq]
  rcases List.mem_append.mp hmem with hm | hm
  · obtain ⟨front, lexeme, rest, htext, hlexeme⟩ := htiling.exists_lexeme_of_mem hm
    refine ⟨front, lexeme ++ rest, scan, by rw [htext, List.append_assoc], habout, ?_,
      .inr ⟨lexeme, rest, rfl, hlexeme⟩⟩
    exact hlexeme.offset_eq.symm
  · have hscan := List.mem_singleton.mp hm
    refine ⟨text.toList, [], scan, by simp, habout, ?_, .inl ⟨rfl, hscan⟩⟩
    rw [hscan, Text.width_toList]
    rfl

/-- The error stands at a lexeme or at the end of the text. What is in front of it can be completed
to an expression. With the lexeme no text is one: whatever stands behind it, unless that makes a
number longer, the error is the same. -/
def FoundEarliest (style : Notation) (text : String) (error : Error) : Prop :=
  ∃ (front after : String) (scan : Scan), text = front ++ after ∧
    front.utf8ByteSize = error.offset ∧ error.About scan ∧
    (∃ more answer, translate style (front ++ more) = .ok answer) ∧
    (after = "" ∧ scan = Scan.ending text.utf8ByteSize ∨
      ∃ lexeme rest : String, after = lexeme ++ rest ∧
        Lexeme front.toList lexeme.toList rest.toList scan ∧
        ∀ other : String, Apart lexeme.toList other.toList →
          translate style (front ++ lexeme ++ other) = .error error)

/-- No error is found too late, and none too early. -/
theorem translate_error_earliest {style : Notation} {text : String} {error : Error}
    (h : translate style text = .error error) (hne : error ≠ .syntactic .emptyExpression) :
    FoundEarliest style text error := by
  have hc := translate_eq_error_iff.mp h
  obtain ⟨front, after, scan, htext, habout, hwidth, hplace⟩ := exists_about hc hne
  have hapart : Apart front after := by
    rcases hplace with ⟨rfl, _⟩ | ⟨lexeme, rest, rfl, hlexeme⟩
    · exact .nil_right front
    · exact hlexeme.apart_left
  obtain ⟨more, hmore⟩ := exists_accepted htext hapart hc hne hwidth.symm
  refine ⟨String.ofList front, String.ofList after, scan, ?_, ?_, habout,
    ⟨String.ofList more, ?_⟩, ?_⟩
  · rw [← String.ofList_append, ← htext, String.ofList_toList]
  · rw [← Text.width_toList, String.toList_ofList, hwidth]
  · rw [← String.ofList_append]
    exact exists_translate_iff.mpr hmore
  · rcases hplace with ⟨rfl, hend⟩ | ⟨lexeme, rest, rfl, hlexeme⟩
    · exact .inl ⟨rfl, hend⟩
    · refine .inr ⟨String.ofList lexeme, String.ofList rest, String.ofList_append, ?_, ?_⟩
      · simpa only [String.toList_ofList] using hlexeme
      · intro other ho
        have hpos := List.length_pos_iff.mpr hlexeme.ne_nil
        have hlexemeWidth := Text.length_le_width lexeme
        rw [String.toList_ofList] at ho
        rw [← List.append_assoc] at htext
        have hcontinued := check_continued htext hlexeme.apart_right hc hne
          (by rw [Text.width_append]; omega)
          ((Cursor.apart_append_left hlexeme.ne_nil).mpr ho)
        rw [String.ofList_append, String.ofList_append, String.ofList_toList] at hcontinued
        exact translate_eq_error_iff.mpr hcontinued

/-- A second number within parentheses. -/
theorem translate_error_earliest_of_unclosed :
    translate .lisp "2*(10 7)" = .error (.syntactic (.unclosedParenthesis 2 ⟨.integer 7, 6⟩)) ∧
      FoundEarliest .lisp "2*(10 7)" (.syntactic (.unclosedParenthesis 2 ⟨.integer 7, 6⟩)) := by
  have hscans : (Cursor.ofText "2*(10 7)").untilEnd =
      [.ok ⟨.integer 2, 0⟩, .ok ⟨.operator .multiply, 1⟩, .ok ⟨.leftParen, 2⟩, .ok ⟨.integer 10, 3⟩,
        .ok ⟨.integer 7, 6⟩, .ok ⟨.rightParen, 7⟩, .ok ⟨.endOfInput, 8⟩] := by
    simp only [Cursor.ofText, String.reduceToList]
    iterate 6 rw [Cursor.untilEnd_token rfl (by decide)]
    rw [Cursor.untilEnd_endOfInput rfl rfl]
    rfl
  have hempty : Machine.isEmpty (Cursor.ofText "2*(10 7)").untilEnd = false := by
    rw [hscans]
    rfl
  have hverdict := verdict_check hempty
  rw [hscans] at hverdict
  have htranslate : translate .lisp "2*(10 7)" =
      .error (.syntactic (.unclosedParenthesis 2 ⟨.integer 7, 6⟩)) :=
    translate_eq_error_iff.mpr (Option.some.inj hverdict).symm
  exact ⟨htranslate, translate_error_earliest htranslate (by simp)⟩

end Calculator.Expression
