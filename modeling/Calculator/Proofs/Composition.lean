import Calculator.Proofs.Embedding

/-!
# Composition

Two expressions within parentheses and an operator between them are an expression. Its value and
its translations are put together from theirs, and so are its errors.
-/

namespace Calculator.Expression

open Cursor (Tiling)

def Accepted (text : String) : Prop :=
  ∃ style answer, translate style text = .ok answer

theorem Accepted.exists_derivation {text : String} (h : Accepted text) :
    ∃ derivation : Derivation .expression, derivation.Covers text ∧
      derivation.nesting ≤ maxDepth := by
  rcases h with ⟨style, answer, htranslate⟩
  exact exists_derivation_of_translate htranslate

structure Tree.Meant (tree : Tree) (text : String) : Prop where
  evaluate_eq : evaluate text = (tree.walk arithmetic ()).1.mapError .evaluation
  translate_eq : ∀ style, translate style text = .ok (tree.spell style)

theorem meant_of_covers {text : String} {derivation : Derivation .expression}
    (h : derivation.Covers text) (hn : derivation.nesting ≤ maxDepth) :
    derivation.tree.Meant text where
  evaluate_eq := congrArg Prod.fst (parse_of_covers h hn ())
  translate_eq style := translate_of_covers style h hn

/-! ## Parentheses -/

theorem accepted_of_covers {text : String} {derivation : Derivation .expression}
    (h : derivation.Covers text) (hn : derivation.nesting ≤ maxDepth) : Accepted text :=
  ⟨.lisp, _, translate_of_covers .lisp h hn⟩

theorem exists_enclosed {text : String} {derivation : Derivation .expression}
    (h : derivation.Covers text) :
    ∃ group : Derivation .expression, group.Covers ("(" ++ text ++ ")") ∧
      group.nesting = derivation.nesting + 1 := by
  have hyields : Phrase.expression.Yields _ _ _ :=
    (derivation.enclose 0 text.utf8ByteSize).yields.lift (by decide)
  rcases hyields with ⟨group, htokens, _, hnesting⟩
  refine ⟨group, ?_, by rw [hnesting, Derivation.nesting_enclose]⟩
  rw [Derivation.covers_iff_tiling, htokens, toList_enclosed]
  exact h.enclose []

/-- An expression is accepted within parentheses if there is room for one pair more. -/
theorem accepted_enclosed_iff {text : String} {derivation : Derivation .expression}
    (h : derivation.Covers text) :
    Accepted ("(" ++ text ++ ")") ↔ derivation.nesting < maxDepth := by
  obtain ⟨group, hgroup, hnesting⟩ := exists_enclosed h
  constructor
  · intro ha
    obtain ⟨whole, hwhole, hn⟩ := ha.exists_derivation
    rw [hgroup.unique hwhole, hnesting] at hn
    exact hn
  · intro hn
    exact accepted_of_covers hgroup (by omega)

/-! ## Two expressions and an operator -/

/-- What `whole` is, which joins `left` and `right` by an operator. -/
structure Composed (op : Operator) (left right whole : String) : Prop where
  left_fails : ∀ error, evaluate left = .error error → ∃ cause, error = .evaluation cause ∧
    evaluate whole = .error (.evaluation (cause.relocate (· + 1)))
  right_fails : ∀ value error, evaluate left = .ok value → evaluate right = .error error →
    ∃ cause, error = .evaluation cause ∧
      evaluate whole = .error (.evaluation (cause.relocate (· + (left.utf8ByteSize + 4))))
  applied : ∀ leftValue rightValue, evaluate left = .ok leftValue →
    evaluate right = .ok rightValue → evaluate whole =
      (Arithmetic.apply op leftValue rightValue (left.utf8ByteSize + 2)).mapError .evaluation
  lisp : ∃ leftLisp rightLisp, translate .lisp left = .ok leftLisp ∧
    translate .lisp right = .ok rightLisp ∧
    translate .lisp whole = .ok ("(" ++ op.text ++ " " ++ leftLisp ++ " " ++ rightLisp ++ ")")
  reversePolish : ∃ leftPolish rightPolish, translate .reversePolish left = .ok leftPolish ∧
    translate .reversePolish right = .ok rightPolish ∧
    translate .reversePolish whole = .ok (leftPolish ++ " " ++ rightPolish ++ " " ++ op.text)

theorem Tree.spell_relocate (style : Notation) (place : Nat → Nat) (tree : Tree) :
    (tree.relocate place).spell style = tree.spell style := by
  induction tree with
  | literal value => rfl
  | node op offset left right ihLeft ihRight => rw [relocate, spell, spell, ihLeft, ihRight]

theorem Tree.Meant.walk_of_value {tree : Tree} {text : String} (h : tree.Meant text)
    {value : Int64} (hv : evaluate text = .ok value) (place : Nat → Nat) :
    (tree.relocate place).walk arithmetic () = (.ok value, ()) := by
  rw [h.evaluate_eq] at hv
  rw [tree.walk_relocate arithmetic_movable]
  rcases hwalk : tree.walk arithmetic () with ⟨cause | found, after⟩
  · rw [hwalk] at hv
    cases hv
  · rw [hwalk] at hv
    cases hv
    rfl

theorem Tree.Meant.walk_of_error {tree : Tree} {text : String} (h : tree.Meant text)
    {error : Error} (he : evaluate text = .error error) (place : Nat → Nat) :
    ∃ cause, error = .evaluation cause ∧
      (tree.relocate place).walk arithmetic () = (.error (cause.relocate place), ()) := by
  rw [h.evaluate_eq] at he
  rw [tree.walk_relocate arithmetic_movable]
  rcases hwalk : tree.walk arithmetic () with ⟨cause | found, after⟩
  · rw [hwalk] at he
    cases he
    exact ⟨cause, rfl, rfl⟩
  · rw [hwalk] at he
    cases he

theorem composed_of_meant {op : Operator} {left right whole : String} {leftTree rightTree : Tree}
    (hl : leftTree.Meant left) (hr : rightTree.Meant right)
    (hw : (Tree.node op (left.utf8ByteSize + 2) (leftTree.relocate (· + 1))
      (rightTree.relocate (· + (left.utf8ByteSize + 4)))).Meant whole) :
    Composed op left right whole := by
  have hwhole := hw.evaluate_eq
  refine ⟨?_, ?_, ?_, ?_, ?_⟩
  · intro error he
    obtain ⟨cause, hcause, hleft⟩ := hl.walk_of_error he (· + 1)
    rw [Tree.walk_node_left hleft] at hwhole
    exact ⟨cause, hcause, hwhole⟩
  · intro value error hv he
    have hleft := hl.walk_of_value hv (· + 1)
    obtain ⟨cause, hcause, hright⟩ := hr.walk_of_error he (· + (left.utf8ByteSize + 4))
    rw [Tree.walk_node_right hleft hright] at hwhole
    exact ⟨cause, hcause, hwhole⟩
  · intro leftValue rightValue hlv hrv
    have hleft := hl.walk_of_value hlv (· + 1)
    have hright := hr.walk_of_value hrv (· + (left.utf8ByteSize + 4))
    rw [Tree.walk_node hleft hright] at hwhole
    exact hwhole
  · refine ⟨_, _, hl.translate_eq .lisp, hr.translate_eq .lisp, ?_⟩
    rw [hw.translate_eq, Tree.spell, Tree.spell_relocate, Tree.spell_relocate]
    rfl
  · refine ⟨_, _, hl.translate_eq .reversePolish, hr.translate_eq .reversePolish, ?_⟩
    rw [hw.translate_eq, Tree.spell, Tree.spell_relocate, Tree.spell_relocate]
    rfl

theorem yields_joined (op : Operator) {tokens tokens' : List Token.Placed} {tree tree' : Tree}
    {nesting nesting' : Nat} (hl : Phrase.factor.Yields tokens tree nesting) (offset : Nat)
    (hr : Phrase.factor.Yields tokens' tree' nesting') :
    Phrase.expression.Yields (tokens ++ ⟨.operator op, offset⟩ :: tokens')
      (.node op offset tree tree') (max nesting nesting') := by
  have hlevel := Chain.precedence_ofOperator op
  have hleft : (Chain.ofOperator op).phrase.Yields tokens tree nesting :=
    hl.lift (by cases Chain.ofOperator op <;> decide)
  have hright : (Chain.ofOperator op).operand.Yields tokens' tree' nesting' :=
    hr.lift (by cases Chain.ofOperator op <;> decide)
  exact (hleft.join hlevel.symm offset hright).lift (by cases Chain.ofOperator op <;> decide)

theorem toList_composed (left right : String) (op : Operator) :
    ("(" ++ left ++ ")" ++ op.text ++ ("(" ++ right ++ ")")).toList =
      '(' :: left.toList ++ [')'] ++ [op.symbol] ++ ('(' :: right.toList ++ [')']) := by
  rw [String.toList_append, String.toList_append, toList_enclosed, toList_enclosed]
  simp [Operator.text]

theorem tiling_composed {left right : String} {first second : Derivation .expression}
    (hl : first.Covers left) (hr : second.Covers right) (op : Operator) :
    Tiling [] ("(" ++ left ++ ")" ++ op.text ++ ("(" ++ right ++ ")")).toList
      (scansOf ((first.enclose 0 left.utf8ByteSize).tokens ++
        ⟨.operator op, left.utf8ByteSize + 2⟩ ::
          (second.enclose (left.utf8ByteSize + 3) right.utf8ByteSize).tokens)) := by
  have hbefore : Text.width ('(' :: left.toList ++ [')']) = left.utf8ByteSize + 2 := by
    rw [Text.width_append, Text.width_cons, Text.width_toList]
    show 1 + left.utf8ByteSize + 1 = _
    omega
  have hpassed : Text.width ('(' :: left.toList ++ [')'] ++ [op.symbol]) =
      left.utf8ByteSize + 3 := by
    have hsymbol : op.symbol.utf8Size = 1 := by cases op <;> rfl
    rw [Text.width_append, hbefore, Text.width_cons, hsymbol]
    rfl
  have hop : Tiling ('(' :: left.toList ++ [')']) [op.symbol]
      [.ok ⟨.operator op, left.utf8ByteSize + 2⟩] := by
    rw [← hbefore]
    exact .single (.operator op [])
  have hlast := hr.enclose ('(' :: left.toList ++ [')'] ++ [op.symbol])
  rw [hpassed] at hlast
  have hall := ((hl.enclose []).append hop).append hlast
  rw [toList_composed]
  simpa using hall

/-- Two expressions within parentheses and an operator between them are evaluated one after the
other, and translated side by side. -/
theorem evaluate_composed {left right : String} (hl : Accepted left) (hr : Accepted right)
    (hgl : Accepted ("(" ++ left ++ ")")) (hgr : Accepted ("(" ++ right ++ ")"))
    (op : Operator) :
    Composed op left right ("(" ++ left ++ ")" ++ op.text ++ ("(" ++ right ++ ")")) := by
  obtain ⟨first, hfirst, hfirstDepth⟩ := hl.exists_derivation
  obtain ⟨second, hsecond, hsecondDepth⟩ := hr.exists_derivation
  have hfirstRoom := (accepted_enclosed_iff hfirst).mp hgl
  have hsecondRoom := (accepted_enclosed_iff hsecond).mp hgr
  have hyields := yields_joined op (first.enclose 0 left.utf8ByteSize).yields
    (left.utf8ByteSize + 2) (second.enclose (left.utf8ByteSize + 3) right.utf8ByteSize).yields
  rcases hyields with ⟨whole, htokens, htree, hnesting⟩
  rw [Derivation.tree_enclose, Derivation.tree_enclose] at htree
  rw [Derivation.nesting_enclose, Derivation.nesting_enclose] at hnesting
  have hcovers :
      whole.Covers ("(" ++ left ++ ")" ++ op.text ++ ("(" ++ right ++ ")")) := by
    rw [Derivation.covers_iff_tiling, htokens]
    exact tiling_composed hfirst hsecond op
  have hwhole := meant_of_covers hcovers (by rw [hnesting]; omega)
  have hone : (fun n => 0 + 1 + n) = (· + 1) := by
    funext n
    omega
  have hfour : (fun n => left.utf8ByteSize + 3 + 1 + n) = (· + (left.utf8ByteSize + 4)) := by
    funext n
    omega
  rw [htree, hone, hfour] at hwhole
  exact composed_of_meant (meant_of_covers hfirst hfirstDepth)
    (meant_of_covers hsecond hsecondDepth) hwhole

/-- The second expression divides by zero, two places in front of the end. -/
theorem evaluate_composed_of_zero :
    (Accepted "7" ∧ Accepted "1/0" ∧ Accepted ("(" ++ "7" ++ ")") ∧
        Accepted ("(" ++ "1/0" ++ ")")) ∧
      evaluate "(7)-(1/0)" = .error (.evaluation (.divisionByZero 6)) ∧
      translate .lisp "(7)-(1/0)" = .ok "(- 7 (/ 1 0))" := by
  let seven : Derivation .expression := .expression (.term (.literal 7 0) .nil) .nil
  let quotient : Derivation .expression :=
    .expression (.term (.literal 1 0) (.cons .divide rfl 1 (.literal 0 2) .nil)) .nil
  have hseven : seven.Covers "7" := by
    refine Derivation.covers_iff.mpr ⟨1, ?_⟩
    simp only [Cursor.ofText, String.reduceToList]
    rw [Cursor.untilEnd_token rfl (by decide), Cursor.untilEnd_endOfInput rfl rfl]
    rfl
  have hquotient : quotient.Covers "1/0" := by
    refine Derivation.covers_iff.mpr ⟨3, ?_⟩
    simp only [Cursor.ofText, String.reduceToList]
    iterate 3 rw [Cursor.untilEnd_token rfl (by decide)]
    rw [Cursor.untilEnd_endOfInput rfl rfl]
    rfl
  have hl := accepted_of_covers hseven (Nat.zero_le _)
  have hr := accepted_of_covers hquotient (Nat.zero_le _)
  have hgl := (accepted_enclosed_iff hseven).mpr (by decide)
  have hgr := (accepted_enclosed_iff hquotient).mpr (by decide)
  have hcomposed := evaluate_composed hl hr hgl hgr .subtract
  have hvalue : evaluate "7" = .ok 7 := (meant_of_covers hseven (Nat.zero_le _)).evaluate_eq
  have herror : evaluate "1/0" = .error (.evaluation (.divisionByZero 1)) :=
    (meant_of_covers hquotient (Nat.zero_le _)).evaluate_eq
  obtain ⟨cause, hcause, hwhole⟩ := hcomposed.right_fails 7 _ hvalue herror
  cases hcause
  obtain ⟨leftLisp, rightLisp, hleft, hright, hlisp⟩ := hcomposed.lisp
  rw [(meant_of_covers hseven (Nat.zero_le _)).translate_eq] at hleft
  rw [(meant_of_covers hquotient (Nat.zero_le _)).translate_eq] at hright
  cases hleft
  cases hright
  exact ⟨⟨hl, hr, hgl, hgr⟩, hwhole, hlisp⟩

end Calculator.Expression
