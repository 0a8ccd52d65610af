import Calculator.Semantics

/-!
# Stack machine

Instructions in postfix order drive a semantics. A number is pushed; an operator takes the right
operand from the top and the left one below it, and pushes what they give. An operator that fails
leaves both operands where they are.
-/

namespace Calculator

inductive Instruction where
  | push (value : Int64)
  | apply (op : Operator)
deriving DecidableEq

namespace Instruction

def number? (word : List Char) : Option Instruction :=
  match Text.Decimal.read? word with
  | some n => (Range.fit? n).map .push
  | none => none

/-- A symbol alone is an operator; a sign with digits behind it belongs to a number. -/
def ofWord? : List Char → Option Instruction
  | [c] =>
      match Operator.ofSymbol? c with
      | some op => some (.apply op)
      | none => number? [c]
  | word => number? word

end Instruction

/-- The top of the stack comes first. -/
structure StackMachine (σ α : Type) where
  stack : List α
  store : σ

namespace StackMachine

variable {σ α : Type}

/-- There is no step for an operator without two operands. -/
def step (S : Semantics σ α) (offset : Nat) (machine : StackMachine σ α) :
    Instruction → Option (Except EvaluationError Unit × StackMachine σ α)
  | .push value =>
      let (output, store) := S.integer value machine.store
      some (.ok (), ⟨output :: machine.stack, store⟩)
  | .apply op =>
      match machine.stack with
      | right :: left :: below =>
          match S.binary op left right offset machine.store with
          | (.ok output, store) => some (.ok (), ⟨output :: below, store⟩)
          | (.error error, store) => some (.error error, { machine with store := store })
      | _ => none

/-- What each instruction does: the stack behind it, or its error. Operators are told their own
place among the instructions. -/
def run (S : Semantics σ α) (offset : Nat) (machine : StackMachine σ α) :
    List Instruction → Option (List (Except EvaluationError (List α)))
  | [] => some []
  | instruction :: rest =>
      match machine.step S offset instruction with
      | some (outcome, after) =>
          (after.run S (offset + 1) rest).map (outcome.map (fun _ => after.stack) :: ·)
      | none => none

end StackMachine

end Calculator
