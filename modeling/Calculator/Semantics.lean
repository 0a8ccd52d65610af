import Calculator.Error

/-!
# Semantics

What an expression means is left open: a semantics says what a literal gives and how an operator
combines two operands. It may keep a store of type `σ` from call to call, and an operator may
fail; the store is kept then too.
-/

namespace Calculator

/-- `binary op left right offset` is told where the operator stands. -/
structure Semantics (σ α : Type) where
  integer : Int64 → σ → α × σ
  binary : Operator → α → α → Nat → σ → Except EvaluationError α × σ

def Semantics.pure {α : Type} (integer : Int64 → α)
    (binary : Operator → α → α → Nat → Except EvaluationError α) : Semantics Unit α where
  integer value _ := (integer value, ())
  binary op left right offset _ := (binary op left right offset, ())

/-!
## Checked arithmetic

Each operation is that of the integers, with division toward zero. A result that is out of range
is an error.
-/

namespace Operator

/-- The result in the integers, without bounds. -/
def exact : Operator → Int → Int → Int
  | .add, left, right => left + right
  | .subtract, left, right => left - right
  | .multiply, left, right => left * right
  | .divide, left, right => left.tdiv right

end Operator

namespace Arithmetic

/-- Division by zero is looked for first. -/
def apply (op : Operator) (left right : Int64) (offset : Nat) : Except EvaluationError Int64 :=
  if op = .divide ∧ right = 0 then .error (.divisionByZero offset)
  else
    match Range.fit? (op.exact left.toInt right.toInt) with
    | some value => .ok value
    | none => .error (.overflow op offset)

theorem apply_eq_ok_iff {op : Operator} {left right value : Int64} {offset : Nat} :
    apply op left right offset = .ok value ↔
      ¬ (op = .divide ∧ right = 0) ∧ value.toInt = op.exact left.toInt right.toInt := by
  unfold apply
  split
  · rename_i h
    simp [h]
  · rename_i h
    rw [← Range.fit?_eq_some_iff]
    cases Range.fit? (op.exact left.toInt right.toInt) <;> simp [h]

example : apply .divide (-7) 2 0 = .ok (-3) := by cbv

example : apply .divide Int64.minValue (-1) 4 = .error (.overflow .divide 4) := by cbv

end Arithmetic

def arithmetic : Semantics Unit Int64 := .pure id Arithmetic.apply

/-!
## Notations

Two ways to write an expression without precedence: operators behind their operands, or in front
of them within parentheses. Writing never fails.
-/

inductive Notation where
  | reversePolish
  | lisp
deriving DecidableEq

namespace Notation

def join : Notation → Operator → String → String → String
  | .reversePolish, op, left, right => left ++ " " ++ right ++ " " ++ op.text
  | .lisp, op, left, right => "(" ++ op.text ++ " " ++ left ++ " " ++ right ++ ")"

def semantics (style : Notation) : Semantics Unit String :=
  .pure (fun value => Text.Decimal.write value.toInt) fun op left right _ =>
    .ok (style.join op left right)

end Notation

end Calculator
