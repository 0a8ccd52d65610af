import Calculator.Answer
import Calculator.Proofs.Shunting.Derivation
import Calculator.Semantics.StackMachine

/-!
# Accepted texts

A text is accepted if its tokens have a derivation and no call fails in the walk through the tree
of it. What comes out is then what the walk gives.
-/

namespace Calculator

namespace Expression

variable {σ α : Type} {S : Semantics σ α}

/-- The tokens of the text are those of the derivation, and behind them is the end. -/
def Derivation.Covers (derivation : Derivation .expression) (text : String) : Prop :=
  ∃ offset, tokenize text = .ok (derivation.tokens ++ [⟨.endOfInput, offset⟩])

theorem Derivation.covers_iff {derivation : Derivation .expression} {text : String} :
    derivation.Covers text ↔ ∃ offset, (Cursor.ofText text).untilEnd =
      scansOf derivation.tokens ++ [.ok ⟨.endOfInput, offset⟩] := by
  unfold Covers tokenize
  simp only [gather_eq_ok_iff, List.map_append]
  rfl

/-- A text has at most one derivation. -/
theorem Derivation.Covers.unique {derivation other : Derivation .expression} {text : String}
    (h : derivation.Covers text) (ho : other.Covers text) : other = derivation := by
  obtain ⟨offset, htokens⟩ := h
  obtain ⟨offset', hother⟩ := ho
  rw [htokens] at hother
  have htokens' : derivation.tokens = other.tokens :=
    (List.append_inj' (Except.ok.inj hother) rfl).1
  exact (eq_of_tokens_eq htokens').symm

namespace State

theorem read_of_parse {state : State σ} {out : α} (h : (state.parse S).result = .ok out) :
    ∃ after shorter, read S .expression state = .done out after shorter ∧
      after.lookahead.token = .endOfInput ∧ (state.parse S).store = after.store := by
  unfold parse at h ⊢
  by_cases hl : state.lookahead.token = .endOfInput
  · rw [readWhole_empty hl] at h
    cases h
  · cases hr : read S .expression state with
    | failed error after =>
        rw [readWhole_failed hl hr] at h
        cases h
    | done value after shorter =>
        rw [readWhole_done hl hr] at h ⊢
        split at h
        · rename_i he
          cases h
          rw [if_pos he]
          exact ⟨after, shorter, rfl, he, rfl⟩
        · cases h

end State

theorem exists_derivation_of_parse {text : String} {store : σ} {out : α}
    (h : (parse S text store).result = .ok out) :
    ∃ derivation : Derivation .expression, derivation.Covers text ∧
      derivation.nesting ≤ maxDepth ∧
      derivation.tree.walk S store = (.ok out, (parse S text store).store) := by
  unfold parse at h ⊢
  split at h
  · rename_i state hstate
    have hinitial := State.initial_of_ofText hstate
    obtain ⟨after, shorter, hread, hend, hfinal⟩ := State.read_of_parse h
    obtain ⟨derivation, hreads⟩ := reads_of_done hread
    refine ⟨derivation, Derivation.covers_iff.mpr ⟨after.lookahead.offset, ?_⟩, ?_, ?_⟩
    · rw [← hinitial.sight_eq, hreads.sight_eq, State.sight_of_endOfInput hend]
    · have hn := hreads.nesting_le
      rwa [hinitial.depth_eq] at hn
    · rw [← hinitial.store_eq, hreads.walk_eq, hfinal]
  · cases h

theorem parse_of_covers {text : String} {derivation : Derivation .expression}
    (h : derivation.Covers text) (hn : derivation.nesting ≤ maxDepth) (store : σ) :
    ((parse S text store).result, (parse S text store).store) =
      ((derivation.tree.walk S store).1.mapError .evaluation,
        (derivation.tree.walk S store).2) := by
  obtain ⟨offset, hscans⟩ := Derivation.covers_iff.mp h
  exact Shunting.parse_derivation S hscans hn store

/-- A text gives `out`, and `final` in the store, if and only if its tokens have a derivation with
at most 256 open parentheses and the walk through the tree gives them. There is then only this
derivation. -/
theorem parse_eq_ok_iff (S : Semantics σ α) (text : String) (store : σ) (out : α) (final : σ) :
    (parse S text store).result = .ok out ∧ (parse S text store).store = final ↔
      ∃ derivation : Derivation .expression,
        derivation.Covers text ∧ (∀ other, other.Covers text → other = derivation) ∧
          derivation.nesting ≤ 256 ∧ derivation.tree.walk S store = (.ok out, final) := by
  constructor
  · intro h
    rcases h with ⟨hresult, hfinal⟩
    obtain ⟨derivation, hcovers, hn, hwalk⟩ := exists_derivation_of_parse hresult
    refine ⟨derivation, hcovers, ?_, hn, ?_⟩
    · intro other ho
      exact hcovers.unique ho
    · rw [hwalk, hfinal]
  · intro h
    rcases h with ⟨derivation, hcovers, _, hn, hwalk⟩
    have hparse := parse_of_covers hcovers hn store (S := S)
    rw [hwalk] at hparse
    exact ⟨congrArg Prod.fst hparse, congrArg Prod.snd hparse⟩

end Expression

/-!
## Spelling

A tree written in a notation, and its instructions in postfix order. The words of the reverse
Polish spelling, which spaces divide, are these instructions.
-/

namespace Text.Decimal

theorem space_notMem_write (n : Int) : ' ' ∉ (write n).toList := by
  intro h
  rcases isDigit_or_minus_of_mem_write h with hdigit | hminus
  · cases hdigit
  · cases hminus

end Text.Decimal

namespace Instruction

/-- No operator is a number, so what reads as a number is pushed. -/
theorem ofWord?_of_read? {word : List Char} {value : Int64}
    (h : Text.Decimal.read? word = some value.toInt) : ofWord? word = some (.push value) := by
  have hnumber : number? word = some (.push value) := by
    rw [number?, h]
    simp only [Range.fit?_toInt, Option.map_some]
  unfold ofWord?
  split
  · split
    · rename_i c op hop
      rw [← Operator.symbol_of_ofSymbol? hop] at h
      cases op <;> cases h
    · exact hnumber
  · exact hnumber

theorem ofWord?_write (value : Int64) :
    ofWord? (Text.Decimal.write value.toInt).toList = some (.push value) :=
  ofWord?_of_read? (Text.Decimal.read?_write value.toInt)

def program? (text : String) : Option (List Instruction) :=
  (text.toList.splitOn ' ').mapM ofWord?

theorem program?_word {text : String} {instruction : Instruction} (hspace : ' ' ∉ text.toList)
    (h : ofWord? text.toList = some instruction) : program? text = some [instruction] := by
  rw [program?, List.splitOn_eq_singleton hspace, List.mapM_cons, h]
  rfl

theorem program?_operator (op : Operator) : program? op.text = some [.apply op] := by
  cases op <;> decide

theorem program?_append {left right : String} {before after : List Instruction}
    (hl : program? left = some before) (hr : program? right = some after) :
    program? (left ++ " " ++ right) = some (before ++ after) := by
  have hdivide : (left ++ " " ++ right).toList.splitOn ' ' =
      left.toList.splitOn ' ' ++ right.toList.splitOn ' ' := by
    rw [String.toList_append, String.toList_append, List.append_assoc]
    exact List.splitOn_append_cons_self _ _
  unfold program? at hl hr ⊢
  rw [hdivide, List.mapM_append, hl, hr]
  rfl

end Instruction

namespace Expression.Tree

def spell (style : Notation) : Tree → String
  | .literal value => Text.Decimal.write value.toInt
  | .node op _ left right => style.join op (left.spell style) (right.spell style)

theorem walk_spell (style : Notation) (tree : Tree) :
    tree.walk style.semantics () = (.ok (tree.spell style), ()) := by
  induction tree with
  | literal value => rfl
  | node op offset left right ihLeft ihRight => exact walk_node ihLeft ihRight

/-- An instruction for each literal and each operator, behind those of its operands. -/
def code : Tree → List Instruction
  | .literal value => [.push value]
  | .node op _ left right => left.code ++ right.code ++ [.apply op]

theorem program?_spell (tree : Tree) :
    Instruction.program? (tree.spell .reversePolish) = some tree.code := by
  induction tree with
  | literal value =>
      exact Instruction.program?_word (Text.Decimal.space_notMem_write value.toInt)
        (Instruction.ofWord?_write value)
  | node op offset left right ihLeft ihRight =>
      exact Instruction.program?_append (Instruction.program?_append ihLeft ihRight)
        (Instruction.program?_operator op)

end Expression.Tree

/-- A translation is the spelling of the tree that the text has. -/
theorem Expression.translate_of_covers {text : String} {derivation : Derivation .expression}
    (style : Notation) (h : derivation.Covers text) (hn : derivation.nesting ≤ maxDepth) :
    translate style text = .ok (derivation.tree.spell style) := by
  have hparse := parse_of_covers h hn () (S := style.semantics)
  rw [derivation.tree.walk_spell style] at hparse
  exact congrArg Prod.fst hparse

end Calculator
