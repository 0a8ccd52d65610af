import Mathlib.Data.List.Chain
import Calculator.Proofs.Agreement
import Calculator.Proofs.Nesting

/-!
# Printing and parsing

A formula printed with any spaces between its tokens. Parsing gives the formula back, unless more
parentheses are open at once than may be; then the first one that is too many is found.
-/

namespace Calculator

namespace Expression

/-!
## Formulas

A formula is a tree that has not been written yet, so its operators have no places. Written between
their operands they need parentheses: around a left operand that binds less tightly, and around a
right operand that does not bind more tightly. The tokens have a derivation then, and the tree of
it is the formula.
-/

/-- Literals have no sign. -/
inductive Formula where
  | literal (value : Int64) (nonneg : 0 ≤ value.toInt)
  | node (op : Operator) (left right : Formula)

namespace Formula

def precedence : Formula → Nat
  | .literal _ _ => Phrase.factor.precedence
  | .node op _ _ => op.precedence

def parenthesized (needed : Bool) (tokens : List Token) : List Token :=
  if needed then .leftParen :: (tokens ++ [.rightParen]) else tokens

/-- The formula between parentheses where they are needed, and only there. -/
def tokens : Formula → List Token
  | .literal value _ => [.integer value]
  | .node op left right =>
      parenthesized (left.precedence < op.precedence) left.tokens ++
        .operator op :: parenthesized (right.precedence ≤ op.precedence) right.tokens

/-- A sum that is taken away needs its parentheses, a product would not. -/
example (one two three : Int64) (h₁ : 0 ≤ one.toInt) (h₂ : 0 ≤ two.toInt) (h₃ : 0 ≤ three.toInt) :
    (node .subtract (.literal one h₁) (.node .add (.literal two h₂) (.literal three h₃))).tokens =
      [.integer one, .operator .subtract, .leftParen, .integer two, .operator .add,
        .integer three, .rightParen] := rfl

def spell (style : Notation) : Formula → String
  | .literal value _ => Text.Decimal.write value.toInt
  | .node op left right => style.join op (left.spell style) (right.spell style)

/-- The tree is this formula, with a place for each operator. -/
inductive At : Formula → Tree → Prop where
  | literal (value : Int64) (nonneg : 0 ≤ value.toInt) : At (.literal value nonneg) (.literal value)
  | node {left right : Formula} {leftTree rightTree : Tree} (op : Operator) (offset : Nat)
      (atLeft : At left leftTree) (atRight : At right rightTree) :
      At (.node op left right) (.node op offset leftTree rightTree)

theorem At.spell_eq {formula : Formula} {tree : Tree} (h : formula.At tree) (style : Notation) :
    tree.spell style = formula.spell style := by
  induction h with
  | literal value nonneg => rfl
  | node op offset atLeft atRight ihLeft ihRight => rw [Tree.spell, spell, ihLeft, ihRight]

/-! ### Derivations -/

/-- The phrase that the tokens are without further parentheses. -/
def phrase : Formula → Phrase
  | .literal _ _ => .factor
  | .node op _ _ => (Chain.ofOperator op).phrase

theorem precedence_phrase (formula : Formula) : formula.phrase.precedence = formula.precedence := by
  cases formula with
  | literal value nonneg => rfl
  | node op left right =>
      rw [phrase, Chain.precedence_phrase, Chain.precedence_ofOperator]
      rfl

/-- Wherever these tokens stand, they are a phrase with the formula as its tree. -/
def Yielded (formula : Formula) (phrase : Phrase) (tokens : List Token) : Prop :=
  ∀ placed : List Token.Placed, placed.map Token.Placed.token = tokens →
    ∃ tree nesting, formula.At tree ∧ phrase.Yields placed tree nesting

namespace Yielded

variable {formula left right : Formula} {phrase other : Phrase} {tokens tokens' : List Token}

theorem lift (h : formula.Yielded phrase tokens) (hle : other.precedence ≤ phrase.precedence) :
    formula.Yielded other tokens := by
  intro placed hplaced
  obtain ⟨tree, nesting, hat, hyields⟩ := h placed hplaced
  exact ⟨tree, nesting, hat, hyields.lift hle⟩

theorem group (h : formula.Yielded .expression tokens) :
    formula.Yielded .factor (.leftParen :: (tokens ++ [.rightParen])) := by
  intro placed hplaced
  obtain ⟨⟨_, openedAt⟩, rest, rfl, rfl, hrest⟩ := List.map_eq_cons_iff.mp hplaced
  obtain ⟨inner, closing, rfl, hinner, hclosing⟩ := List.map_eq_append_iff.mp hrest
  obtain ⟨⟨_, closedAt⟩, rfl, rfl⟩ := List.map_eq_singleton_iff.mp hclosing
  obtain ⟨tree, nesting, hat, hyields⟩ := h inner hinner
  exact ⟨tree, nesting + 1, hat, hyields.group openedAt closedAt⟩

theorem parenthesized {needed : Bool} (h : formula.Yielded phrase tokens)
    (hle : needed = false → other.precedence ≤ phrase.precedence) :
    formula.Yielded other (parenthesized needed tokens) := by
  cases needed with
  | false => exact h.lift (hle rfl)
  | true =>
      have hinner : formula.Yielded .expression tokens :=
        h.lift (by cases phrase <;> decide)
      exact hinner.group.lift (by cases other <;> decide)

theorem join {level : Chain} {op : Operator} (hl : left.Yielded level.phrase tokens)
    (hop : op.precedence = level.precedence) (hr : right.Yielded level.operand tokens') :
    (node op left right).Yielded level.phrase (tokens ++ .operator op :: tokens') := by
  intro placed hplaced
  obtain ⟨first, rest, rfl, hfirst, hrest⟩ := List.map_eq_append_iff.mp hplaced
  obtain ⟨⟨_, offset⟩, second, rfl, rfl, hsecond⟩ := List.map_eq_cons_iff.mp hrest
  obtain ⟨leftTree, leftNesting, hatLeft, hleft⟩ := hl first hfirst
  obtain ⟨rightTree, rightNesting, hatRight, hright⟩ := hr second hsecond
  exact ⟨_, _, .node op offset hatLeft hatRight, hleft.join hop offset hright⟩

end Yielded

theorem yielded (formula : Formula) : formula.Yielded formula.phrase formula.tokens := by
  induction formula with
  | literal value nonneg =>
      intro placed hplaced
      obtain ⟨⟨_, offset⟩, rfl, rfl⟩ := List.map_eq_singleton_iff.mp hplaced
      exact ⟨_, _, .literal value nonneg, yields_literal value offset⟩
  | node op left right ihLeft ihRight =>
      have hlevel := Chain.precedence_ofOperator op
      refine Yielded.join (ihLeft.parenthesized ?_) hlevel.symm (ihRight.parenthesized ?_)
      · intro hneeded
        have hbinds := of_decide_eq_false hneeded
        rw [Chain.precedence_phrase, hlevel, precedence_phrase]
        omega
      · intro hneeded
        have hbinds := of_decide_eq_false hneeded
        rw [Chain.precedence_operand, hlevel, precedence_phrase]
        omega

end Formula

/-! ### Places of operators -/

def operatorAt? (placed : Token.Placed) : Option (Operator × Nat) :=
  placed.token.operator?.map fun op => (op, placed.offset)

def Tree.operators : Tree → List (Operator × Nat)
  | .literal _ => []
  | .node op offset left right => left.operators ++ (op, offset) :: right.operators

theorem operatorAt?_operator (op : Operator) (offset : Nat) :
    operatorAt? ⟨.operator op, offset⟩ = some (op, offset) := rfl

/-- The operators stand in the tree in the order in which they stand among the tokens. -/
theorem Derivation.operators_tree {phrase : Phrase} (derivation : Derivation phrase) :
    derivation.tree.operators = derivation.tokens.filterMap operatorAt? := by
  refine Derivation.induction
    (fun _ derivation => derivation.tree.operators = derivation.tokens.filterMap operatorAt?)
    (fun _ links => ∀ tree, (links.tree tree).operators =
      tree.operators ++ links.tokens.filterMap operatorAt?) ?_ ?_ ?_ ?_ ?_ derivation
  · intro value offset
    rfl
  · intro openedAt inner closedAt ih
    rw [tree, tokens, ih, List.filterMap_cons_none rfl, List.filterMap_append]
    exact (List.append_nil _).symm
  · intro level first rest ihFirst ihRest
    rw [tree_chain, tokens_chain, ihRest, ihFirst, List.filterMap_append]
  · intro level tree
    exact (List.append_nil _).symm
  · intro level op joins offset operand rest ihOperand ihRest tree
    rw [Links.tree, ihRest, Tree.operators, ihOperand, Links.tokens,
      List.filterMap_cons_some (operatorAt?_operator op offset), List.filterMap_append,
      List.append_assoc, List.cons_append]

end Expression

/-! ## Printing -/

namespace Token

def spelling : Token → List Char
  | .integer value => (Text.Decimal.write value.toInt).toList
  | .operator op => [op.symbol]
  | .leftParen => ['(']
  | .rightParen => [')']
  | .endOfInput => []

def Spellable : Token → Prop
  | .integer value => 0 ≤ value.toInt
  | .operator _ => True
  | .leftParen => True
  | .rightParen => True
  | .endOfInput => False

/-- Two numbers side by side would be one number. -/
def Separate (first second : Token) : Prop := first.literal? = none ∨ second.literal? = none

theorem Spellable.ne_nil {token : Token} (h : token.Spellable) : token.spelling ≠ [] := by
  cases token with
  | integer value =>
      obtain ⟨n, hn⟩ := Int.eq_ofNat_of_zero_le h
      rw [spelling, hn, Text.Decimal.toList_write_natCast]
      exact Nat.toDigits_ne_nil
  | operator op => exact List.cons_ne_nil _ _
  | leftParen => exact List.cons_ne_nil _ _
  | rightParen => exact List.cons_ne_nil _ _
  | endOfInput => exact h.elim

theorem isDigit_of_mem_spelling {token : Token} (h : token.literal? = none) {c : Char}
    (hc : c ∈ token.spelling) : c.isDigit = false := by
  cases token with
  | integer value => cases h
  | operator op =>
      rw [List.mem_singleton.mp hc]
      exact Cursor.isDigit_of_mem_symbols (Cursor.symbol_mem_symbols op)
  | leftParen =>
      rw [List.mem_singleton.mp hc]
      rfl
  | rightParen =>
      rw [List.mem_singleton.mp hc]
      rfl
  | endOfInput => cases hc

end Token

namespace Cursor

/-! ### Rows of tokens -/

theorem Lexeme.spelled {before after : List Char} {token : Token} (hs : token.Spellable)
    (hb : Apart before (token.spelling ++ after)) (ha : Apart token.spelling after) :
    Lexeme before token.spelling after (.ok ⟨token, Text.width before⟩) := by
  cases token with
  | integer value => exact .written hs hb ha
  | operator op => exact .operator op after
  | leftParen => exact .leftParen after
  | rightParen => exact .rightParen after
  | endOfInput => exact hs.elim

abbrev Blank := { gap : List Char // Gap gap }

/-- Tokens with spaces between them. `spacing` gives those in front of each token, and those behind
the last one. -/
def lay (spacing : Nat → Blank) : List Token → List Char
  | [] => (spacing 0).val
  | token :: tokens => (spacing 0).val ++ token.spelling ++ lay (fun n => spacing (n + 1)) tokens

theorem apart_lay {token : Token} {tokens : List Token} (hs : ∀ next ∈ tokens, next.Spellable)
    (hc : (token :: tokens).IsChain Token.Separate) (spacing : Nat → Blank) :
    Apart token.spelling (lay spacing tokens) := by
  cases tokens with
  | nil =>
      have hgap := (Apart.nil_right token.spelling).behind_gap (spacing 0).property
      rwa [List.append_nil] at hgap
  | cons next tokens =>
      rw [lay, List.append_assoc]
      refine Apart.behind_gap ?_ (spacing 0).property
      obtain ⟨hseparate, _⟩ := List.isChain_cons_cons.mp hc
      rcases hseparate with hfirst | hsecond
      · refine apart_of_last ?_ _
        intro c hmem
        exact Token.isDigit_of_mem_spelling hfirst (List.mem_of_getLast? hmem)
      · have hne := (hs next List.mem_cons_self).ne_nil
        refine Apart.append_right (apart_of_first ?_ _) hne _
        intro c hmem
        exact Token.isDigit_of_mem_spelling hsecond (List.mem_of_head? hmem)

/-- Tokens of which no two are numbers side by side are scanned as they were written, whatever the
spaces between them. -/
theorem exists_placed {tokens : List Token} (hs : ∀ token ∈ tokens, token.Spellable)
    (hc : tokens.IsChain Token.Separate) (spacing : Nat → Blank) {passed : List Char}
    (ha : Apart passed (lay spacing tokens)) :
    ∃ placed : List Token.Placed, placed.map Token.Placed.token = tokens ∧
      Tiling passed (lay spacing tokens) (placed.map .ok) := by
  induction tokens generalizing spacing passed with
  | nil => exact ⟨[], rfl, .gap passed (spacing 0).property⟩
  | cons token tokens ih =>
      have hrest : ∀ next ∈ tokens, next.Spellable := fun next hmem =>
        hs next (List.mem_cons_of_mem token hmem)
      rw [lay, List.append_assoc] at ha
      have hlexeme := Lexeme.spelled (hs token List.mem_cons_self) (ha.gap (spacing 0).property)
        (apart_lay hrest hc _)
      obtain ⟨placed, hplaced, htiling⟩ := ih hrest hc.tail _ hlexeme.apart_right
      refine ⟨⟨token, Text.width (passed ++ (spacing 0).val)⟩ :: placed, ?_, ?_⟩
      · rw [List.map_cons, hplaced]
      · exact .lexeme (spacing 0).property hlexeme htiling

/-! ### Operators of a text -/

/-- The operators among some characters, the first of which stands at `offset`. -/
def operatorsFrom : Nat → List Char → List (Operator × Nat)
  | _, [] => []
  | offset, c :: chars =>
      match Operator.ofSymbol? c with
      | some op => (op, offset) :: operatorsFrom (offset + c.utf8Size) chars
      | none => operatorsFrom (offset + c.utf8Size) chars

theorem operatorsFrom_append (offset : Nat) (front back : List Char) :
    operatorsFrom offset (front ++ back) =
      operatorsFrom offset front ++ operatorsFrom (offset + Text.width front) back := by
  induction front generalizing offset with
  | nil => rfl
  | cons c front ih =>
      rw [List.cons_append, operatorsFrom, operatorsFrom, ih, Text.width_cons, Nat.add_assoc]
      cases Operator.ofSymbol? c <;> rfl

theorem operatorsFrom_plain {chars : List Char} (h : Plain chars) (offset : Nat) :
    operatorsFrom offset chars = [] := by
  induction chars generalizing offset with
  | nil => rfl
  | cons c chars ih =>
      have hnone : Operator.ofSymbol? c = none := by
        cases ho : Operator.ofSymbol? c with
        | none => rfl
        | some op =>
            have hc := Operator.symbol_of_ofSymbol? ho
            exact absurd (hc ▸ symbol_mem_symbols op) (h c List.mem_cons_self)
      rw [operatorsFrom, hnone]
      exact ih (fun d hd => h d (List.mem_cons_of_mem c hd)) _

open Expression (operatorAt?)

theorem Lexeme.operatorsFrom_eq {before lexeme after : List Char} {placed : Token.Placed}
    (h : Lexeme before lexeme after (.ok placed)) :
    operatorsFrom (Text.width before) lexeme = (operatorAt? placed).toList := by
  cases h with
  | operator op =>
      rw [operatorsFrom, Operator.ofSymbol?_symbol]
      rfl
  | leftParen => rfl
  | rightParen => rfl
  | integer run value exact => exact operatorsFrom_plain run.plain _

/-- The operators that are scanned of a text are all that stand in it. -/
theorem Tiling.operatorsFrom_eq {passed text : List Char} {placed : List Token.Placed}
    (h : Tiling passed text (placed.map .ok)) :
    operatorsFrom (Text.width passed) text = placed.filterMap operatorAt? := by
  generalize hfound : placed.map Except.ok = found at h
  induction h generalizing placed with
  | gap passed blank =>
      obtain rfl := List.map_eq_nil_iff.mp hfound
      exact operatorsFrom_plain blank.plain _
  | @lexeme passed gap lexeme rest scan others blank first further ih =>
      obtain ⟨head, tail, rfl, rfl, hothers⟩ := List.map_eq_cons_iff.mp hfound
      rw [operatorsFrom_append, operatorsFrom_append, operatorsFrom_plain blank.plain,
        List.nil_append, Text.width_append, ← Nat.add_assoc, ← Text.width_append,
        ← Text.width_append, first.operatorsFrom_eq, ih hothers]
      cases hop : operatorAt? head with
      | none => rw [List.filterMap_cons_none hop]; rfl
      | some placedOp => rw [List.filterMap_cons_some hop]; rfl

end Cursor

namespace Expression

open Cursor (Blank Tiling lay operatorsFrom)

/-! ### Formulas -/

namespace Formula

theorem spellable_parenthesized {needed : Bool} {tokens : List Token}
    (h : ∀ token ∈ tokens, token.Spellable) :
    ∀ token ∈ parenthesized needed tokens, token.Spellable := by
  intro token hmem
  cases needed with
  | false => exact h token hmem
  | true =>
      rcases List.mem_cons.mp hmem with rfl | hmem
      · trivial
      rcases List.mem_append.mp hmem with hmem | hmem
      · exact h token hmem
      · rw [List.mem_singleton.mp hmem]
        trivial

theorem spellable_tokens (formula : Formula) : ∀ token ∈ formula.tokens, token.Spellable := by
  induction formula with
  | literal value nonneg =>
      intro token hmem
      rw [List.mem_singleton.mp hmem]
      exact nonneg
  | node op left right ihLeft ihRight =>
      intro token hmem
      rcases List.mem_append.mp hmem with hmem | hmem
      · exact spellable_parenthesized ihLeft token hmem
      rcases List.mem_cons.mp hmem with rfl | hmem
      · trivial
      · exact spellable_parenthesized ihRight token hmem

theorem separate_parenthesized {needed : Bool} {tokens : List Token}
    (h : tokens.IsChain Token.Separate) :
    (parenthesized needed tokens).IsChain Token.Separate := by
  cases needed with
  | false => exact h
  | true =>
      refine List.isChain_cons.mpr ⟨fun _ _ => .inl rfl, ?_⟩
      refine List.isChain_append.mpr ⟨h, .singleton _, ?_⟩
      intro last _ next hnext
      cases hnext
      exact .inr rfl

/-- Between any two numbers stands an operator. -/
theorem separate_tokens (formula : Formula) : formula.tokens.IsChain Token.Separate := by
  induction formula with
  | literal value nonneg => exact .singleton _
  | node op left right ihLeft ihRight =>
      refine List.isChain_append.mpr ⟨separate_parenthesized ihLeft, ?_, ?_⟩
      · exact List.isChain_cons.mpr ⟨fun _ _ => .inl rfl, separate_parenthesized ihRight⟩
      · intro last _ next hnext
        cases hnext
        exact .inr rfl

def print (spacing : Nat → Blank) (formula : Formula) : String :=
  String.ofList (lay spacing formula.tokens)

/-- Here only the second token has a space in front of it. -/
example :
    (node .multiply (.node .subtract (.literal 2 (by decide)) (.literal 3 (by decide)))
      (.literal 40 (by decide))).print (fun n =>
        if n = 1 then ⟨[' '], by simp [Cursor.Gap, Cursor.spaces]⟩
        else ⟨[], by simp [Cursor.Gap]⟩) = "( 2-3)*40" := by decide

/-- A printed formula is an expression, and its tree is the formula. -/
theorem exists_derivation (formula : Formula) (spacing : Nat → Blank) :
    ∃ derivation : Derivation .expression, derivation.Covers (formula.print spacing) ∧
      formula.At derivation.tree ∧
      derivation.tree.operators = operatorsFrom 0 (formula.print spacing).toList := by
  obtain ⟨placed, hplaced, htiling⟩ := Cursor.exists_placed formula.spellable_tokens
    formula.separate_tokens spacing (Cursor.Apart.nil_left _)
  have hyielded : formula.Yielded .expression formula.tokens :=
    formula.yielded.lift (by cases formula.phrase <;> decide)
  obtain ⟨_, _, hat, derivation, rfl, rfl, _⟩ := hyielded placed hplaced
  have htext : (formula.print spacing).toList = lay spacing formula.tokens := String.toList_ofList
  refine ⟨derivation, ?_, hat, ?_⟩
  · rw [Derivation.covers_iff_tiling, htext]
    exact htiling
  · rw [derivation.operators_tree, htext]
    exact htiling.operatorsFrom_eq.symm

end Formula

/-! ### Parsing back -/

/-- The text means the formula, with its operators where they stand in the text. -/
def Recovers (formula : Formula) (text : String) : Prop :=
  ∃ tree, formula.At tree ∧ tree.operators = operatorsFrom 0 text.toList ∧
    (∀ style, translate style text = .ok (formula.spell style)) ∧
    evaluate text = (tree.walk arithmetic ()).1.mapError .evaluation

/-- The text is refused for the parenthesis at `offset`. When it is evaluated, an operator in front
of that may fail first. -/
structure Refused (text : String) (offset : Nat) : Prop where
  translate_eq : ∀ style,
    translate style text = .error (.syntactic (.nestingTooDeep 256 offset))
  evaluate_eq : evaluate text = .error (.syntactic (.nestingTooDeep 256 offset)) ∨
    ∃ error, evaluate text = .error (.evaluation error) ∧ error.offset < offset

theorem refused_of_check {text : String} {offset : Nat}
    (h : check text = .error (.syntactic (.nestingTooDeep 256 offset))) : Refused text offset where
  translate_eq _ := translate_eq_error_iff.mpr h
  evaluate_eq := (agree_translate .lisp text).no_later_error _ (translate_eq_error_iff.mpr h)

/-- Parsing undoes printing, unless more than 256 parentheses are open at once. Then the first one
that is too many is found. -/
theorem Formula.parse_print (formula : Formula) (spacing : Nat → Blank) :
    (Shallow (formula.print spacing).toList → Recovers formula (formula.print spacing)) ∧
      (¬ Shallow (formula.print spacing).toList →
        ∃ offset, DeepAt (formula.print spacing).toList offset ∧
          Refused (formula.print spacing) offset) := by
  obtain ⟨derivation, hcovers, hat, hoperators⟩ := formula.exists_derivation spacing
  rw [shallow_iff hcovers]
  constructor
  · intro hn
    refine ⟨derivation.tree, hat, hoperators, ?_, ?_⟩
    · intro style
      rw [translate_of_covers style hcovers hn, hat.spell_eq]
    · exact congrArg Prod.fst (parse_of_covers hcovers hn ())
  · intro hn
    obtain ⟨offset, hcheck⟩ := check_of_deep hcovers (Nat.lt_of_not_le hn)
    exact ⟨offset, (deepAt_of_check hcheck).2, refused_of_check hcheck⟩

end Expression

end Calculator
