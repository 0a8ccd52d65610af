import Calculator.Proofs.Embedding
import Calculator.Proofs.Verdict

/-!
# Substitution

Changes of a text that do not show in what is found: spaces put between lexemes, and an expression
put in the place of its value.
-/

namespace Calculator

/-!
## Spaces between lexemes

Spaces may be put anywhere in a text but between two digits. They change nothing, except that what
stands behind them is found that much further back.
-/

namespace Cursor

variable {front gap back : List Char}

/-- With a gap in front of `back`, the scans of `back` are moved by the width of the gap. -/
theorem exists_spaced (hg : Gap gap) (ha : Apart front back) :
    ∃ found, Tiling [] (front ++ back) found ∧
      Tiling [] (front ++ gap ++ back)
        (found.map (Scan.relocate (shift (Text.width front) (Text.width gap)))) := by
  obtain ⟨first, hfirst⟩ := exists_tiling (Apart.nil_left front)
  obtain ⟨second, hsecond⟩ := exists_tiling ha
  have hmoved : Tiling (front ++ gap) back
      (second.map (Scan.relocate (shift (Text.width front) (Text.width gap)))) := by
    refine hsecond.relocate ((ha.behind_gap hg).gap hg) ?_
    intro n
    rw [shift_of_le (Nat.le_add_right _ _), Text.width_append]
    omega
  have hfixed : first.map (Scan.relocate (shift (Text.width front) (Text.width gap))) = first := by
    apply Scan.map_relocate_of_fixed
    intro scan hmem
    have hbounds := hfirst.offset_bounds hmem
    exact shift_of_lt (by simpa using hbounds.2)
  refine ⟨first ++ second, hfirst.append hsecond, ?_⟩
  rw [List.map_append, hfixed, List.append_assoc]
  exact hfirst.append (hmoved.behind_gap hg)

end Cursor

namespace Expression

open Cursor (Apart Gap Lexeme Tiling)

/-- Spaces move the places in an error, and do nothing else. -/
theorem parse_spaced {σ α : Type} {S : Semantics σ α} (hS : S.Movable) {front gap back : String}
    (hg : Gap gap.toList) (ha : Apart front.toList back.toList) (store : σ) :
    (parse S (front ++ gap ++ back) store).result =
      (parse S (front ++ back) store).result.mapError
        (Error.relocate (shift front.utf8ByteSize gap.utf8ByteSize)) := by
  obtain ⟨found, htight, hloose⟩ := Cursor.exists_spaced hg ha
  rw [Text.width_toList, Text.width_toList] at hloose
  rw [← String.toList_append] at htight
  rw [← String.toList_append, ← String.toList_append] at hloose
  by_cases hne : found = []
  · subst hne
    rw [Shunting.parse_of_isEmpty S (isEmpty_of_gap htight),
      Shunting.parse_of_isEmpty S (isEmpty_of_gap hloose)]
    rfl
  · have hend : Scan.ending (front ++ gap ++ back).utf8ByteSize =
        (Scan.ending (front ++ back).utf8ByteSize).relocate
          (shift front.utf8ByteSize gap.utf8ByteSize) := by
      simp only [String.utf8ByteSize_append, Scan.relocate_ending]
      rw [shift_of_le (Nat.le_add_right _ _)]
      congr 1
      omega
    have hspaced := Shunting.verdict_of_tiling S (by simpa using hne) hloose store
    have hmoved := Shunting.verdict_relocate (shift front.utf8ByteSize gap.utf8ByteSize) hS
      (Shunting.verdict_of_tiling S hne htight store)
    rw [List.map_append, List.map_singleton, ← hend] at hmoved
    have hboth := Option.some.inj (hspaced.symm.trans hmoved)
    exact congrArg Prod.fst hboth

/-- Wherever no number is cut, spaces may stand: the value and the translations are the same, and
so is an error, once its places from there on are moved by the width of the spaces. -/
theorem evaluate_spaced {front gap back : String} (hg : Gap gap.toList)
    (ha : Apart front.toList back.toList) :
    evaluate (front ++ gap ++ back) =
        (evaluate (front ++ back)).mapError
          (Error.relocate (shift front.utf8ByteSize gap.utf8ByteSize)) ∧
      ∀ style, translate style (front ++ gap ++ back) =
        (translate style (front ++ back)).mapError
          (Error.relocate (shift front.utf8ByteSize gap.utf8ByteSize)) :=
  ⟨parse_spaced arithmetic_movable hg ha (),
    fun style => parse_spaced style.semantics_movable hg ha ()⟩

/-- The parenthesis stands in front of the spaces, the number that should close it behind them. -/
theorem evaluate_spaced_of_unclosed :
    evaluate ("(1" ++ " 2") = .error (.syntactic (.unclosedParenthesis 0 ⟨.integer 2, 3⟩)) ∧
      evaluate ("(1" ++ "\t " ++ " 2") =
        .error (.syntactic (.unclosedParenthesis 0 ⟨.integer 2, 5⟩)) := by
  have hscans : (Cursor.ofText "(1 2").untilEnd =
      [.ok ⟨.leftParen, 0⟩, .ok ⟨.integer 1, 1⟩, .ok ⟨.integer 2, 3⟩, .ok ⟨.endOfInput, 4⟩] := by
    simp only [Cursor.ofText, String.reduceToList]
    iterate 3 rw [Cursor.untilEnd_token rfl (by decide)]
    rw [Cursor.untilEnd_endOfInput rfl rfl]
    rfl
  have hempty : Machine.isEmpty (Cursor.ofText "(1 2").untilEnd = false := by
    rw [hscans]
    rfl
  have hverdict := Shunting.verdict_untilEnd arithmetic hempty ()
  rw [hscans] at hverdict
  have hevaluate : evaluate ("(1" ++ " 2") =
      .error (.syntactic (.unclosedParenthesis 0 ⟨.integer 2, 3⟩)) :=
    (congrArg Prod.fst (Option.some.inj hverdict)).symm
  have hgap : Gap "\t ".toList := by simp [Gap, Cursor.spaces]
  have hapart : Apart "(1".toList " 2".toList := by
    refine Cursor.apart_of_first ?_ _
    simp
  refine ⟨hevaluate, ?_⟩
  rw [(evaluate_spaced hgap hapart).1, hevaluate]
  rfl

/-!
## Substitution of equals

An expression within parentheses may be replaced by its value, and the value by the expression, in
any text that has a value: nothing but the depth of the parentheses around it shows.
-/

/-- A text in which an expression stands within parentheses has the value that it has with the
value of the expression written there, unless it is too deep. -/
structure Substituted (grouped written : Except Error Int64) : Prop where
  written_of_grouped : ∀ result, grouped = .ok result → written = .ok result
  grouped_of_written : ∀ result, written = .ok result →
    grouped = .ok result ∨
      ∃ offset, grouped = .error (.syntactic (.nestingTooDeep 256 offset))

namespace Substituted

theorem of_eq {grouped written : Except Error Int64} (h : grouped = written) :
    Substituted grouped written where
  written_of_grouped _ hg := h ▸ hg
  grouped_of_written _ hw := .inl (h ▸ hw)

theorem of_errors {grouped written : Except Error Int64}
    (hg : ∀ result, grouped ≠ .ok result) (hw : ∀ result, written ≠ .ok result) :
    Substituted grouped written where
  written_of_grouped result h := absurd h (hg result)
  grouped_of_written result h := absurd h (hw result)

end Substituted

namespace Shunting

variable {σ α : Type} (S : Semantics σ α)

/-! ### Operands -/

/-- A token that can only begin an operand does not follow one. -/
theorem proceed_of_operand (pending : List Mark) (operands : List α) (store : σ)
    {placed : Token.Placed} (ho : placed.token.operator? = none)
    (hr : placed.token ≠ .rightParen) (he : placed.token ≠ .endOfInput) :
    (∃ error final, proceed S pending operands store placed = .halt (.error error, final)) ∨
      proceed S pending operands store placed = .stuck := by
  unfold proceed
  rcases settle S placed.token.precedence pending operands store with
    ⟨error | ⟨pending, operands⟩, after⟩
  · exact .inl ⟨_, _, rfl⟩
  · simp only [judge, ho]
    rcases pending with _ | ⟨_ | openedAt, pending⟩
    · rw [if_neg he]
      exact .inl ⟨_, _, rfl⟩
    · exact .inr rfl
    · simp only [if_neg hr]
      exact .inl ⟨_, _, rfl⟩

theorem verdict_ne_ok {machine : Shunting σ α} (hphase : machine.phase ≠ .wanted)
    {placed : Token.Placed} (ho : placed.token.operator? = none)
    (hr : placed.token ≠ .rightParen) (he : placed.token ≠ .endOfInput) (others : List Scan)
    (result : α) (final : σ) :
    Machine.verdict (step S) machine (.ok placed :: others) ≠ some (.ok result, final) := by
  obtain ⟨phase, pending, operands, store⟩ := machine
  have hstep : (∃ error after,
      step S ⟨phase, pending, operands, store⟩ (.ok placed) = .halt (.error error, after)) ∨
        step S ⟨phase, pending, operands, store⟩ (.ok placed) = .stuck := by
    cases phase with
    | wanted => exact absurd rfl hphase
    | literal value => exact proceed_of_operand S pending _ _ ho hr he
    | complete => exact proceed_of_operand S pending operands store ho hr he
  rw [Machine.verdict]
  rcases hstep with ⟨error, after, hhalt⟩ | hstuck
  · rw [hhalt]
    simp
  · rw [hstuck]
    simp

/-- A literal is a complete operand, whatever stands behind it. -/
theorem verdict_integer (pending : List Mark) (operands : List Int64) (value : Int64)
    (offset : Nat) (scans : List Scan) :
    Machine.verdict (step arithmetic) ⟨.wanted, pending, operands, ()⟩
        (.ok ⟨.integer value, offset⟩ :: scans) =
      Machine.verdict (step arithmetic) ⟨.complete, pending, value :: operands, ()⟩ scans := by
  rcases scans with _ | ⟨_ | placed, scans⟩
  all_goals rfl

variable {S}

/-- Whether there is a value, and which, does not depend on the places of the scans. -/
theorem ok_of_relocated (hS : S.Movable) {place : Nat → Nat} {machine : Shunting σ α}
    {scans scans' : List Scan} {found found' : Except Error α} {final final' : σ}
    (hplace : scans.map (Scan.relocate place) = scans'.map (Scan.relocate place))
    (h : Machine.verdict (step S) machine scans = some (found, final))
    (h' : Machine.verdict (step S) machine scans' = some (found', final')) {result : α}
    (hf : found = .ok result) : found' = .ok result := by
  have hmoved := verdict_relocate place hS h
  rw [hplace, verdict_relocate place hS h', hf] at hmoved
  have hresult := congrArg Prod.fst (Option.some.inj hmoved)
  cases found' with
  | error error => cases hresult
  | ok result' =>
      cases hresult
      rfl

/-! ### The machine at an operand -/

/-- From any state the machine goes on behind an expression within parentheses as it does behind its
value, once the places are forgotten. -/
theorem substituted_of_verdict {inner : Derivation .expression} {value : Int64}
    (hw : inner.tree.walk arithmetic () = (.ok value, ())) (machine : Shunting Unit Int64)
    {openedAt closedAt offset : Nat} {scans scans' : List Scan} {place : Nat → Nat}
    (hplace : scans.map (Scan.relocate place) = scans'.map (Scan.relocate place))
    {grouped written : Except Error Int64}
    (hg : Machine.verdict (step arithmetic) machine
      (scansOf (Derivation.group openedAt inner closedAt).tokens ++ scans) = some (grouped, ()))
    (hv : Machine.verdict (step arithmetic) machine
      (.ok ⟨.integer value, offset⟩ :: scans') = some (written, ())) :
    Substituted grouped written := by
  by_cases hphase : machine.phase = .wanted
  · obtain ⟨phase, pending, operands, store⟩ := machine
    obtain rfl : phase = .wanted := hphase
    rw [verdict_integer] at hv
    by_cases hd : depth pending + inner.nesting < maxDepth
    · rw [verdict_group (walks_derivation inner) hd, hw] at hg
      refine ⟨?_, ?_⟩
      · intro result hgrouped
        exact ok_of_relocated arithmetic_movable hplace hg hv hgrouped
      · intro result hwritten
        exact .inl (ok_of_relocated arithmetic_movable hplace.symm hv hg hwritten)
    · have hsinks := sinks_group (S := arithmetic) (sinks_derivation inner) (Nat.not_lt.mp hd)
        operands () openedAt closedAt scans
      rw [hg, hw] at hsinks
      rcases hsinks with ⟨limit, after, hdeep⟩ | ⟨error, after, herror, _⟩
      · cases hdeep
        refine ⟨?_, ?_⟩
        · intro result hgrouped
          cases hgrouped
        · intro result _
          exact .inr ⟨limit, rfl⟩
      · cases herror
  · refine .of_errors ?_ ?_
    · intro result hgrouped
      rw [hgrouped, scansOf_group] at hg
      exact verdict_ne_ok arithmetic hphase (by rfl) (by simp) (by simp) _ result () hg
    · intro result hwritten
      rw [hwritten] at hv
      exact verdict_ne_ok arithmetic hphase (by rfl) (by simp) (by simp) scans' result () hv

end Shunting

/-! ### Texts -/

/-- The scans of a text in three parts, given those of each part. -/
theorem verdict_within {front middle back : String} {first found second : List Scan}
    (hf : Tiling [] front.toList first) (hm : Tiling front.toList middle.toList found)
    (hb : Tiling [] back.toList second) (ha : Apart (front.toList ++ middle.toList) back.toList)
    (hne : found ≠ []) :
    Machine.verdict (Shunting.step arithmetic) (Shunting.start ())
        (first ++ (found ++ (second.map (Scan.relocate ((front ++ middle).utf8ByteSize + ·)) ++
          [Scan.ending (front ++ middle ++ back).utf8ByteSize]))) =
      some (evaluate (front ++ middle ++ back), ()) := by
  have hback : Tiling (front.toList ++ middle.toList) back.toList
      (second.map (Scan.relocate ((front ++ middle).utf8ByteSize + ·))) := by
    refine hb.relocate ha ?_
    intro n
    rw [← String.toList_append, Text.width_toList, Text.width_nil, Nat.zero_add]
  have hall := (hf.append hm).append hback
  rw [← String.toList_append, ← String.toList_append] at hall
  have hverdict := Shunting.verdict_of_tiling arithmetic (by simp [hne]) hall ()
  rw [List.append_assoc, List.append_assoc] at hverdict
  exact hverdict

theorem toList_spaced (text : String) :
    (" " ++ text ++ " ").toList = ' ' :: text.toList ++ [' '] := by
  simp [String.toList_append]

/-- The digits of a value, with a space on both sides, are scanned as one literal. -/
theorem tiling_value {value : Int64} (hv : 0 ≤ value.toInt) (passed : List Char) :
    Tiling passed (" " ++ Text.Decimal.write value.toInt ++ " ").toList
      [.ok ⟨.integer value, Text.width (passed ++ [' '])⟩] := by
  have hspace : Gap [' '] := by simp [Gap, Cursor.spaces]
  have hlexeme : Lexeme (passed ++ [' ']) (Text.Decimal.write value.toInt).toList [' ']
      (.ok ⟨.integer value, Text.width (passed ++ [' '])⟩) :=
    .written hv (Cursor.apart_of_last (by simp) _) (Cursor.apart_of_first (by simp) _)
  rw [toList_spaced]
  exact Tiling.lexeme hspace hlexeme (.gap _ hspace)

/-- In any text an expression within parentheses may be replaced by its value, and the value by the
expression if that is not too deep. -/
theorem evaluate_substituted {inner : String} {value : Int64} (hs : evaluate inner = .ok value)
    (hv : 0 ≤ value.toInt) (front back : String) :
    Substituted (evaluate (front ++ ("(" ++ inner ++ ")") ++ back))
      (evaluate (front ++ (" " ++ Text.Decimal.write value.toInt ++ " ") ++ back)) := by
  obtain ⟨derivation, hcovers, _, hwalk⟩ := exists_derivation_of_parse hs
  obtain ⟨first, hfirst⟩ := Cursor.exists_tiling_of_text front
  obtain ⟨second, hsecond⟩ := Cursor.exists_tiling_of_text back
  have hgroup := hcovers.enclose front.toList
  rw [← toList_enclosed] at hgroup
  have hclosed : Apart (front.toList ++ ("(" ++ inner ++ ")").toList) back.toList := by
    rw [toList_enclosed, ← List.append_assoc]
    exact Cursor.apart_of_symbol (by decide) _ _
  have hspaced : Apart (front.toList ++
      (" " ++ Text.Decimal.write value.toInt ++ " ").toList) back.toList := by
    refine Cursor.apart_of_last ?_ _
    rw [toList_spaced, ← List.append_assoc, List.getLast?_concat]
    simp
  have hgrouped := verdict_within hfirst hgroup hsecond hclosed
    (by simp [Derivation.enclose, Derivation.tokens])
  have hwritten := verdict_within hfirst (tiling_value hv front.toList) hsecond hspaced (by simp)
  rcases Machine.settled_or_past (Shunting.step arithmetic) (Shunting.start ()) first with
    hsettled | ⟨past, hpast⟩
  · rw [hsettled] at hgrouped hwritten
    exact .of_eq (congrArg Prod.fst (Option.some.inj (hgrouped.symm.trans hwritten)))
  · rw [hpast] at hgrouped hwritten
    have hinner : (derivation.relocate (Text.width front.toList + 1 + ·)).tree.walk arithmetic () =
        (.ok value, ()) := by
      rw [derivation.tree_relocate, Tree.walk_relocate arithmetic_movable, hwalk]
      rfl
    have hplace : ∀ text text' : String,
        (second.map (Scan.relocate (text.utf8ByteSize + ·)) ++
            [Scan.ending (text ++ back).utf8ByteSize]).map (Scan.relocate fun _ => 0) =
          (second.map (Scan.relocate (text'.utf8ByteSize + ·)) ++
            [Scan.ending (text' ++ back).utf8ByteSize]).map (Scan.relocate fun _ => 0) := by
      intro text text'
      simp only [List.map_append, Scan.map_relocate_relocate]
      rfl
    exact Shunting.substituted_of_verdict hinner past (hplace _ _) hgrouped hwritten

/-- Seven is found with the product in its place, so it is found with six written there. -/
theorem evaluate_substituted_of_product :
    evaluate "2*3" = .ok 6 ∧ 0 ≤ (6 : Int64).toInt ∧
      evaluate ("10-" ++ ("(" ++ "2*3" ++ ")") ++ "/2") = .ok 7 ∧
      evaluate ("10-" ++ (" " ++ Text.Decimal.write (6 : Int64).toInt ++ " ") ++ "/2") = .ok 7 := by
  let product : Derivation .expression :=
    .expression (.term (.literal 2 0) (.cons .multiply rfl 1 (.literal 3 2) .nil)) .nil
  let difference : Derivation .expression :=
    .expression (.term (.literal 10 0) .nil) (.cons .subtract rfl 2
      (.term (product.enclose 3 3) (.cons .divide rfl 8 (.literal 2 9) .nil)) .nil)
  have hproduct : product.Covers "2*3" := by
    refine Derivation.covers_iff.mpr ⟨3, ?_⟩
    simp only [Cursor.ofText, String.reduceToList]
    iterate 3 rw [Cursor.untilEnd_token rfl (by decide)]
    rw [Cursor.untilEnd_endOfInput rfl rfl]
    rfl
  have hdifference : difference.Covers ("10-" ++ ("(" ++ "2*3" ++ ")") ++ "/2") := by
    refine Derivation.covers_iff.mpr ⟨10, ?_⟩
    simp only [Cursor.ofText, String.reduceToList, String.reduceAppend]
    iterate 9 rw [Cursor.untilEnd_token rfl (by decide)]
    rw [Cursor.untilEnd_endOfInput rfl rfl]
    rfl
  have hsix : evaluate "2*3" = .ok 6 := congrArg Prod.fst (parse_of_covers hproduct (by decide) ())
  have hseven : evaluate ("10-" ++ ("(" ++ "2*3" ++ ")") ++ "/2") = .ok 7 :=
    congrArg Prod.fst (parse_of_covers hdifference (by decide) ())
  have hsubstituted := evaluate_substituted hsix (by decide) "10-" "/2"
  exact ⟨hsix, by decide, hseven, hsubstituted.written_of_grouped 7 hseven⟩

end Expression

end Calculator
