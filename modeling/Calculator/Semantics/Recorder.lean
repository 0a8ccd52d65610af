import Calculator.Semantics

/-!
# Recorded calls

Two ways to write down what a semantics is asked for: one does nothing else, the other keeps a log
beside the store of any semantics.
-/

namespace Calculator

/-!
## Events

What a call gives is its own place in the record, so operands name the calls that they come from.
One application may be told to fail; it is written down first.
-/

/-- Operands are the places of earlier events. -/
inductive Event where
  | integer (value : Int64)
  | binary (op : Operator) (left right : Nat) (offset : Nat)
deriving DecidableEq

namespace Event

def isBinary : Event → Bool
  | .integer _ => false
  | .binary .. => true

end Event

/-- With `failAt = some k` the application number `k` fails, counted from 1. -/
def recorder (failAt : Option Nat) : Semantics (List Event) Nat where
  integer value events := (events.length, events ++ [.integer value])
  binary op left right offset events :=
    (if failAt = some (events.countP Event.isBinary + 1) then .error (.overflow op offset)
      else .ok events.length,
      events ++ [.binary op left right offset])

/-! ## Calls -/

section

variable {σ α : Type}

inductive Call (α : Type) where
  | integer (value : Int64)
  | binary (op : Operator) (left right : α) (offset : Nat)

/-- `S` answers, and each call is put behind those in the log beside the store of `S`. -/
def Semantics.logging (S : Semantics σ α) : Semantics (σ × List (Call α)) α where
  integer value store :=
    let (output, after) := S.integer value store.1
    (output, after, store.2 ++ [.integer value])
  binary op left right offset store :=
    let (result, after) := S.binary op left right offset store.1
    (result, after, store.2 ++ [.binary op left right offset])

end

end Calculator
