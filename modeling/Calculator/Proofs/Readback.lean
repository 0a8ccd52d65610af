import Mathlib.Data.Nat.Init
import Calculator.Proofs.Composition
import Calculator.Proofs.Replay

/-!
# Notations read back

Both notations keep all of a tree but the places of its operators: a prefix reader gets it back from
one, a reader with a stack from the other.
-/

namespace Calculator

namespace Expression

/-- A tree whose operators have no places. Its literals may be negative. -/
inductive Shape where
  | literal (value : Int64)
  | node (op : Operator) (left right : Shape)
deriving DecidableEq

namespace Tree

def shape : Tree → Shape
  | .literal value => .literal value
  | .node op _ left right => .node op left.shape right.shape

theorem shape_numbered (tree : Tree) (start : Nat) : (tree.numbered start).shape = tree.shape := by
  induction tree generalizing start with
  | literal value => rfl
  | node op offset left right ihLeft ihRight => rw [numbered, shape, shape, ihLeft, ihRight]

/-- A spelling does not tell places. -/
theorem spell_of_shape_eq (style : Notation) {tree other : Tree} (h : tree.shape = other.shape) :
    tree.spell style = other.spell style := by
  induction tree generalizing other with
  | literal value =>
      cases other with
      | literal value' =>
          cases h
          rfl
      | node => cases h
  | node op offset left right ihLeft ihRight =>
      cases other with
      | literal => cases h
      | node op' offset' left' right' =>
          obtain ⟨rfl, hleft, hright⟩ := Shape.node.inj h
          rw [spell, spell, ihLeft hleft, ihRight hright]

end Tree

end Expression

open Expression (Shape Tree)

namespace Notation

/-! ## Prefix reader -/

/-- A shape at the front of a text, and what stands behind it. -/
structure Front (text : List Char) where
  shape : Shape
  rest : List Char
  shorter : rest.length < text.length

def isNumeral (c : Char) : Bool := c.isDigit || c == '-'

def value? (word : List Char) : Option Int64 := (Text.Decimal.read? word).bind Range.fit?

theorem length_dropWhile_lt {text : List Char} {value : Int64}
    (h : value? (text.takeWhile isNumeral) = some value) :
    (text.dropWhile isNumeral).length < text.length := by
  have hne : text.takeWhile isNumeral ≠ [] := by
    intro hnil
    rw [hnil] at h
    cases h
  have hpos := List.length_pos_iff.mpr hne
  have htext : text.takeWhile isNumeral ++ text.dropWhile isNumeral = text :=
    List.takeWhile_append_dropWhile
  have hlength := congrArg List.length htext
  rw [List.length_append] at hlength
  omega

theorem length_behind_operands {symbol : Char} {operands second rest : List Char}
    (hl : (' ' :: second).length < operands.length) (hr : (')' :: rest).length < second.length) :
    rest.length < ('(' :: symbol :: ' ' :: operands).length := by
  simp only [List.length_cons] at hl hr ⊢
  omega

def readNumber? (text : List Char) : Option (Front text) :=
  match h : value? (text.takeWhile isNumeral) with
  | some value => some ⟨.literal value, text.dropWhile isNumeral, length_dropWhile_lt h⟩
  | none => none

/-- A parenthesis is followed by an operator and two operands, anything else is a number. -/
def readPrefix? (text : List Char) : Option (Front text) :=
  match text with
  | '(' :: symbol :: ' ' :: operands =>
      match Operator.ofSymbol? symbol with
      | none => none
      | some op =>
          match readPrefix? operands with
          | some ⟨left, ' ' :: second, hl⟩ =>
              match readPrefix? second with
              | some ⟨right, ')' :: rest, hr⟩ =>
                  some ⟨.node op left right, rest, length_behind_operands hl hr⟩
              | _ => none
          | _ => none
  | text => readNumber? text
termination_by text.length
decreasing_by
  · simp only [List.length_cons]
    omega
  · simp only [List.length_cons] at hl ⊢
    omega

def readLisp? (text : String) : Option Shape :=
  match readPrefix? text.toList with
  | some ⟨shape, [], _⟩ => some shape
  | _ => none

def Ends (rest : List Char) : Prop := ∀ c ∈ rest.head?, isNumeral c = false

theorem ends_nil : Ends [] := by
  intro c hc
  cases hc

theorem ends_cons {c : Char} (h : isNumeral c = false) (rest : List Char) : Ends (c :: rest) := by
  intro d hd
  cases hd
  exact h

theorem isNumeral_of_mem_write {n : Int} {c : Char} (h : c ∈ (Text.Decimal.write n).toList) :
    isNumeral c = true := by
  rcases Text.Decimal.isDigit_or_minus_of_mem_write h with hdigit | rfl
  · rw [isNumeral, hdigit]
    rfl
  · rfl

theorem value?_write (value : Int64) :
    value? (Text.Decimal.write value.toInt).toList = some value := by
  rw [value?, Text.Decimal.read?_write, Option.bind_some, Range.fit?_toInt]

theorem readNumber?_write (value : Int64) {rest : List Char} (h : Ends rest) :
    ∃ shorter, readNumber? ((Text.Decimal.write value.toInt).toList ++ rest) =
      some ⟨.literal value, rest, shorter⟩ := by
  have hword : ∀ c ∈ (Text.Decimal.write value.toInt).toList, isNumeral c = true :=
    fun c hc => isNumeral_of_mem_write hc
  have htake := Text.Decimal.takeWhile_row hword h
  have hdrop := Text.Decimal.dropWhile_row hword h
  unfold readNumber?
  split
  · rename_i found hvalue
    have hfound := hvalue
    rw [htake, value?_write] at hfound
    cases hfound
    have hshorter := length_dropWhile_lt hvalue
    rw [hdrop] at hshorter
    exact ⟨hshorter, by simp only [hdrop]⟩
  · rename_i hnone
    rw [htake, value?_write] at hnone
    cases hnone

theorem toList_join_lisp (op : Operator) (left right : String) (rest : List Char) :
    (join .lisp op left right).toList ++ rest =
      '(' :: op.symbol :: ' ' :: (left.toList ++ ' ' :: (right.toList ++ ')' :: rest)) := by
  simp [join, Operator.text, String.toList_append]

theorem readPrefix?_number {text : List Char} (h : ∀ rest, text ≠ '(' :: rest) :
    readPrefix? text = readNumber? text := by
  rw [readPrefix?]
  intro symbol operands htext
  exact h _ htext

theorem readPrefix?_spell (tree : Tree) {rest : List Char} (h : Ends rest) :
    ∃ shorter, readPrefix? ((tree.spell .lisp).toList ++ rest) =
      some ⟨tree.shape, rest, shorter⟩ := by
  -- Operands have more of the text behind them, so this is shown in front of any rest.
  induction tree generalizing rest with
  | literal value =>
      have hnumber : ∀ more, (Text.Decimal.write value.toInt).toList ++ rest ≠ '(' :: more := by
        intro more hmore
        cases hword : (Text.Decimal.write value.toInt).toList with
        | nil =>
            have hread := value?_write value
            rw [hword] at hread
            cases hread
        | cons c word =>
            rw [hword] at hmore
            cases hmore
            have hparen := isNumeral_of_mem_write (c := '(') (by rw [hword]; simp)
            cases hparen
      rw [Tree.spell, readPrefix?_number hnumber]
      exact readNumber?_write value h
  | node op offset left right ihLeft ihRight =>
      obtain ⟨_, hright⟩ := ihRight (ends_cons (c := ')') rfl rest)
      obtain ⟨_, hleft⟩ := ihLeft
        (ends_cons (c := ' ') rfl ((right.spell .lisp).toList ++ ')' :: rest))
      rw [Tree.spell, toList_join_lisp]
      refine ⟨by simp only [List.length_cons, List.length_append]; omega, ?_⟩
      rw [readPrefix?]
      simp only [Operator.ofSymbol?_symbol, hleft, hright]
      rfl

theorem readLisp?_spell (tree : Tree) : readLisp? (tree.spell .lisp) = some tree.shape := by
  have hfront := readPrefix?_spell tree ends_nil
  rw [List.append_nil] at hfront
  obtain ⟨_, hread⟩ := hfront
  rw [readLisp?, hread]

/-! ## Reader with a stack -/

def shaping : Semantics Unit Shape :=
  .pure .literal fun op left right _ => .ok (.node op left right)

/-- Numbers are pushed, and an operator joins the two shapes on top, the right one first. -/
def readPolish? (text : String) : Option Shape :=
  match (Instruction.program? text).bind (StackMachine.replay shaping 0 ⟨[], ()⟩) with
  | some (.ok [shape]) => some shape
  | _ => none

theorem walk_shaping (tree : Tree) : tree.walk shaping () = (.ok tree.shape, ()) := by
  induction tree with
  | literal value => rfl
  | node op offset left right ihLeft ihRight => exact Tree.walk_node ihLeft ihRight

theorem readPolish?_spell (tree : Tree) :
    readPolish? (tree.spell .reversePolish) = some tree.shape := by
  rw [readPolish?, tree.program?_spell, Option.bind_some, Tree.replay_code_alone, walk_shaping,
    Tree.shape_numbered]
  rfl

/-! ## Both notations -/

def read? : Notation → String → Option Shape
  | .reversePolish => readPolish?
  | .lisp => readLisp?

theorem read?_spell (style : Notation) (tree : Tree) :
    style.read? (tree.spell style) = some tree.shape := by
  cases style with
  | reversePolish => exact readPolish?_spell tree
  | lisp => exact readLisp?_spell tree

theorem spell_eq_iff {style : Notation} {tree other : Tree} :
    tree.spell style = other.spell style ↔ tree.shape = other.shape := by
  constructor
  · intro h
    have hread := read?_spell style tree
    rw [h, read?_spell] at hread
    exact (Option.some.inj hread).symm
  · exact Tree.spell_of_shape_eq style

/-- A minus in front of an operand is a sign, and one behind a parenthesis is an operator. -/
example : read? .lisp "(- -1 -2)" = some (.node .subtract (.literal (-1)) (.literal (-2))) :=
  read?_spell .lisp (.node .subtract 0 (.literal (-1)) (.literal (-2)))

end Notation

/-- A translation is the spelling of a tree that does not depend on the notation. -/
theorem Expression.Accepted.exists_spelling {text : String} (h : Accepted text) :
    ∃ tree : Tree, ∀ style, translate style text = .ok (tree.spell style) := by
  obtain ⟨derivation, hcovers, hn⟩ := h.exists_derivation
  exact ⟨derivation.tree, (meant_of_covers hcovers hn).translate_eq⟩

/-- Whatever the calls, a reader gets them back from the text that was made, so that two rows of
calls that make the same text are the same. Two expressions are told apart by both notations or by
none. -/
theorem Notation.lossless :
    (∀ (style : Notation) (tree : Tree), ∃ text,
      tree.walk style.semantics () = (.ok text, ()) ∧ style.read? text = some tree.shape) ∧
    (∀ (style : Notation) (tree other : Tree),
      tree.walk style.semantics () = other.walk style.semantics () → tree.shape = other.shape) ∧
    ∀ text other, Expression.Accepted text → Expression.Accepted other →
      (translate .lisp text = translate .lisp other ↔
        translate .reversePolish text = translate .reversePolish other) := by
  refine ⟨?_, ?_, ?_⟩
  · intro style tree
    exact ⟨tree.spell style, tree.walk_spell style, read?_spell style tree⟩
  · intro style tree other h
    rw [tree.walk_spell, other.walk_spell] at h
    exact spell_eq_iff.mp (Except.ok.inj (congrArg Prod.fst h))
  · intro text other htext hother
    obtain ⟨tree, htree⟩ := htext.exists_spelling
    obtain ⟨tree', htree'⟩ := hother.exists_spelling
    simp only [htree, htree', Except.ok.injEq, spell_eq_iff]

end Calculator
