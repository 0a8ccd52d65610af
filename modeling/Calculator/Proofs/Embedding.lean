import Calculator.Proofs.Acceptance
import Calculator.Proofs.Relocation

/-!
# Expressions within other texts

A text that is an expression is one, with the same tree, wherever it stands within parentheses.
Only the places of its tokens are others.
-/

namespace Calculator

namespace Expression

/-! ## Trees and derivations at other places -/

def Tree.relocate (place : Nat → Nat) : Tree → Tree
  | .literal value => .literal value
  | .node op offset left right =>
      .node op (place offset) (left.relocate place) (right.relocate place)

theorem Tree.walk_relocate {σ α : Type} {S : Semantics σ α} (hS : S.Movable) (place : Nat → Nat)
    (tree : Tree) (store : σ) :
    (tree.relocate place).walk S store =
      ((tree.walk S store).1.mapError (·.relocate place), (tree.walk S store).2) := by
  induction tree generalizing store with
  | literal value => rfl
  | node op offset left right ihLeft ihRight =>
      have hl := ihLeft store
      rw [relocate]
      rcases hleft : left.walk S store with ⟨error | leftValue, middle⟩
      · rw [hleft] at hl
        rw [walk_node_left hl, walk_node_left hleft]
        rfl
      rw [hleft] at hl
      have hr := ihRight middle
      rcases hright : right.walk S middle with ⟨error | rightValue, after⟩
      · rw [hright] at hr
        rw [walk_node_right hl hr, walk_node_right hleft hright]
        rfl
      · rw [hright] at hr
        rw [walk_node hl hr, walk_node hleft hright]
        exact hS place op leftValue rightValue offset after

mutual

def Derivation.relocate (place : Nat → Nat) {phrase : Phrase} :
    Derivation phrase → Derivation phrase
  | .literal value offset => .literal value (place offset)
  | .group openedAt inner closedAt =>
      .group (place openedAt) (inner.relocate place) (place closedAt)
  | .term first rest => .term (first.relocate place) (rest.relocate place)
  | .expression first rest => .expression (first.relocate place) (rest.relocate place)

def Links.relocate (place : Nat → Nat) {level : Chain} : Links level → Links level
  | .nil => .nil
  | .cons op joins offset operand rest =>
      .cons op joins (place offset) (operand.relocate place) (rest.relocate place)

end

namespace Derivation

variable (place : Nat → Nat)

@[simp] theorem relocate_chain {level : Chain} (first : Derivation level.operand)
    (rest : Links level) :
    (chain level first rest).relocate place =
      chain level (first.relocate place) (rest.relocate place) := by
  cases level <;> rfl

theorem tokens_relocate {phrase : Phrase} (derivation : Derivation phrase) :
    (derivation.relocate place).tokens = derivation.tokens.map (·.relocate place) := by
  refine Derivation.induction
    (fun _ derivation =>
      (derivation.relocate place).tokens = derivation.tokens.map (·.relocate place))
    (fun _ links => (links.relocate place).tokens = links.tokens.map (·.relocate place))
    ?_ ?_ ?_ ?_ ?_ derivation
  · intro value offset
    rfl
  · intro openedAt inner closedAt ih
    simp [relocate, tokens, ih, Token.Placed.relocate]
  · intro level first rest ihFirst ihRest
    rw [relocate_chain, tokens_chain, tokens_chain, ihFirst, ihRest, List.map_append]
  · intro level
    rfl
  · intro level op joins offset operand rest ihOperand ihRest
    simp [Links.relocate, Links.tokens, ihOperand, ihRest, Token.Placed.relocate]

theorem scansOf_relocate {phrase : Phrase} (derivation : Derivation phrase) :
    scansOf (derivation.relocate place).tokens =
      (scansOf derivation.tokens).map (Scan.relocate place) := by
  rw [tokens_relocate, scansOf, scansOf, List.map_map, List.map_map]
  rfl

@[simp] theorem nesting_relocate {phrase : Phrase} (derivation : Derivation phrase) :
    (derivation.relocate place).nesting = derivation.nesting := by
  refine Derivation.induction
    (fun _ derivation => (derivation.relocate place).nesting = derivation.nesting)
    (fun _ links => (links.relocate place).nesting = links.nesting) ?_ ?_ ?_ ?_ ?_ derivation
  · intro value offset
    rfl
  · intro openedAt inner closedAt ih
    rw [relocate, nesting, nesting, ih]
  · intro level first rest ihFirst ihRest
    rw [relocate_chain, nesting_chain, nesting_chain, ihFirst, ihRest]
  · intro level
    rfl
  · intro level op joins offset operand rest ihOperand ihRest
    rw [Links.relocate, Links.nesting, Links.nesting, ihOperand, ihRest]

theorem tree_relocate {phrase : Phrase} (derivation : Derivation phrase) :
    (derivation.relocate place).tree = derivation.tree.relocate place := by
  refine Derivation.induction
    (fun _ derivation => (derivation.relocate place).tree = derivation.tree.relocate place)
    (fun _ links => ∀ tree : Tree,
      (links.relocate place).tree (tree.relocate place) = (links.tree tree).relocate place)
    ?_ ?_ ?_ ?_ ?_ derivation
  · intro value offset
    rfl
  · intro openedAt inner closedAt ih
    exact ih
  · intro level first rest ihFirst ihRest
    rw [relocate_chain, tree_chain, tree_chain, ihFirst, ihRest]
  · intro level tree
    rfl
  · intro level op joins offset operand rest ihOperand ihRest tree
    rw [Links.relocate, Links.tree, Links.tree, ihOperand]
    exact ihRest (.node op offset tree operand.tree)

end Derivation

/-! ## Covered texts -/

open Cursor (Tiling Lexeme Gap)

/-- The lexemes of a text are the tokens of a derivation. -/
theorem Derivation.covers_iff_tiling {derivation : Derivation .expression} {text : String} :
    derivation.Covers text ↔ Tiling [] text.toList (scansOf derivation.tokens) := by
  have hgather : ∀ {found : List Scan}, Tiling [] text.toList found →
      tokenize text = gather (found ++ [Scan.ending text.utf8ByteSize]) := by
    intro found htiling
    have h := htiling.gather_untilEnd
    rw [List.nil_append, Text.width_toList] at h
    exact h
  constructor
  · intro h
    obtain ⟨offset, htokens⟩ := h
    obtain ⟨found, htiling⟩ := Cursor.exists_tiling_of_text text
    rw [hgather htiling, gather_eq_ok_iff, List.map_append] at htokens
    have hfound := (List.append_inj' htokens rfl).1
    rw [hfound] at htiling
    exact htiling
  · intro h
    refine ⟨text.utf8ByteSize, ?_⟩
    rw [hgather h, gather_eq_ok_iff, List.map_append]
    rfl

/-- A derivation of a text, the text being an expression that is not too deep. -/
theorem exists_derivation_of_translate {style : Notation} {text answer : String}
    (h : translate style text = .ok answer) :
    ∃ derivation : Derivation .expression, derivation.Covers text ∧
      derivation.nesting ≤ maxDepth := by
  obtain ⟨derivation, hcovers, hn, _⟩ := exists_derivation_of_parse h
  exact ⟨derivation, hcovers, hn⟩

end Expression

namespace Cursor

/-- A lexeme by itself, with nothing around it. -/
theorem Tiling.single {passed lexeme : List Char} {scan : Scan}
    (h : Lexeme passed lexeme [] scan) : Tiling passed lexeme [scan] := by
  have hgap : Gap [] := by simp [Gap]
  have hpassed : Lexeme (passed ++ []) lexeme [] scan := by rwa [List.append_nil]
  have htiling := Tiling.lexeme hgap hpassed (.gap _ hgap)
  rwa [List.nil_append, List.append_nil] at htiling

theorem apart_of_symbol {c : Char} (h : c ∈ symbols) (passed after : List Char) :
    Apart (passed ++ [c]) after := by
  refine apart_of_last ?_ after
  intro d hd
  rw [List.getLast?_concat] at hd
  cases hd
  exact isDigit_of_mem_symbols h

def enclosed (start width : Nat) (found : List Scan) : List Scan :=
  .ok ⟨.leftParen, start⟩ :: found.map (Scan.relocate (start + 1 + ·)) ++
    [.ok ⟨.rightParen, start + 1 + width⟩]

theorem Tiling.enclose {text : List Char} {found : List Scan} (h : Tiling [] text found)
    (passed : List Char) :
    Tiling passed ('(' :: text ++ [')'])
      (enclosed (Text.width passed) (Text.width text) found) := by
  have hopen : Tiling passed ['('] [.ok ⟨.leftParen, Text.width passed⟩] := .single (.leftParen [])
  have hwidth : Text.width (passed ++ ['(']) = Text.width passed + 1 := Text.width_append _ _
  have hinner : Tiling (passed ++ ['(']) text
      (found.map (Scan.relocate (Text.width passed + 1 + ·))) := by
    refine h.relocate (apart_of_symbol (by decide) passed text) ?_
    intro n
    rw [hwidth, Text.width_nil, Nat.zero_add]
  have hclose : Tiling (passed ++ ['('] ++ text) [')']
      [.ok ⟨.rightParen, Text.width passed + 1 + Text.width text⟩] := by
    rw [← hwidth, ← Text.width_append]
    exact .single (.rightParen [])
  have hall := (hopen.append hinner).append (by simpa only [List.append_assoc] using hclose)
  exact hall

end Cursor

namespace Expression

/-- An expression of this width within parentheses, the first of which stands at `start`. -/
def Derivation.enclose (derivation : Derivation .expression) (start width : Nat) :
    Derivation .factor :=
  .group start (derivation.relocate (start + 1 + ·)) (start + 1 + width)

theorem Derivation.scansOf_enclose (derivation : Derivation .expression) (start width : Nat) :
    scansOf (derivation.enclose start width).tokens =
      Cursor.enclosed start width (scansOf derivation.tokens) := by
  rw [enclose, ← List.append_nil (scansOf _), scansOf_group, scansOf_relocate]
  rfl

@[simp] theorem Derivation.nesting_enclose (derivation : Derivation .expression)
    (start width : Nat) :
    (derivation.enclose start width).nesting = derivation.nesting + 1 := by
  rw [enclose, nesting, nesting_relocate]

@[simp] theorem Derivation.tree_enclose (derivation : Derivation .expression)
    (start width : Nat) :
    (derivation.enclose start width).tree = derivation.tree.relocate (start + 1 + ·) := by
  rw [enclose, tree, tree_relocate]

theorem toList_enclosed (text : String) :
    ("(" ++ text ++ ")").toList = '(' :: text.toList ++ [')'] := by
  simp [String.toList_append]

/-- An expression within parentheses is scanned as one, wherever it stands. -/
theorem Derivation.Covers.enclose {text : String} {derivation : Derivation .expression}
    (h : derivation.Covers text) (passed : List Char) :
    Cursor.Tiling passed ('(' :: text.toList ++ [')'])
      (scansOf (derivation.enclose (Text.width passed) text.utf8ByteSize).tokens) := by
  have htiling := (covers_iff_tiling.mp h).enclose passed
  rw [Text.width_toList] at htiling
  rw [scansOf_enclose]
  exact htiling

end Expression

end Calculator
