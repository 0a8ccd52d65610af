import Calculator.Text

/-!
# Tokens

The smallest parts of an expression: operators, numbers and parentheses, their kinds, and the words
that messages use for them.
-/

namespace Calculator

/-! ## Binary operators -/

inductive Operator where
  | add
  | subtract
  | multiply
  | divide
deriving DecidableEq

namespace Operator

def all : List Operator := [.add, .subtract, .multiply, .divide]

def symbol : Operator → Char
  | .add => '+'
  | .subtract => '-'
  | .multiply => '*'
  | .divide => '/'

def text (op : Operator) : String := op.symbol.toString

/-- An operator of greater precedence takes its operands first. -/
def precedence : Operator → Nat
  | .add | .subtract => 1
  | .multiply | .divide => 2

def isAdditive (op : Operator) : Bool := op.precedence == 1

def isMultiplicative (op : Operator) : Bool := op.precedence == 2

def ofSymbol? (c : Char) : Option Operator := all.find? (·.symbol == c)

@[simp] theorem ofSymbol?_symbol (op : Operator) : ofSymbol? op.symbol = some op := by
  cases op <;> rfl

theorem symbol_of_ofSymbol? {c : Char} {op : Operator} (h : ofSymbol? c = some op) :
    op.symbol = c := by
  simpa using List.find?_some h

end Operator

/-!
## Range of values

Values have 64 bits and a sign. An integer outside their range has no value; it is never wrapped.
-/

namespace Range

def Fits (n : Int) : Prop := Int64.minValue.toInt ≤ n ∧ n ≤ Int64.maxValue.toInt

instance (n : Int) : Decidable (Fits n) := inferInstanceAs (Decidable (_ ∧ _))

def fit? (n : Int) : Option Int64 :=
  if Fits n then some (Int64.ofInt n) else none

theorem fits_toInt (value : Int64) : Fits value.toInt := by
  have hl := value.le_toInt
  have hu := value.toInt_lt
  unfold Fits
  rw [Int64.toInt_minValue, Int64.toInt_maxValue]
  omega

theorem toInt_ofInt_of_fits {n : Int} (h : Fits n) : (Int64.ofInt n).toInt = n := by
  obtain ⟨hl, hu⟩ := h
  rw [Int64.toInt_minValue] at hl
  rw [Int64.toInt_maxValue] at hu
  exact Int64.toInt_ofInt_of_le hl (by omega)

theorem fit?_eq_some_iff {n : Int} {value : Int64} : fit? n = some value ↔ value.toInt = n := by
  constructor
  · intro h
    unfold fit? at h
    split at h
    · rename_i hn
      cases h
      exact toInt_ofInt_of_fits hn
    · cases h
  · rintro rfl
    simp [fit?, fits_toInt]

theorem fit?_eq_none_iff {n : Int} : fit? n = none ↔ ¬ Fits n := by
  simp [fit?]

@[simp] theorem fit?_toInt (value : Int64) : fit? value.toInt = some value :=
  fit?_eq_some_iff.mpr rfl

end Range

/-! ## Tokens and their kinds -/

inductive Token where
  | integer (value : Int64)
  | operator (op : Operator)
  | leftParen
  | rightParen
  | endOfInput
deriving DecidableEq

namespace Token

/-- A token without the number it may carry. -/
inductive Kind where
  | integer
  | operator (op : Operator)
  | leftParen
  | rightParen
  | endOfInput
deriving DecidableEq

def Kind.text : Kind → String
  | .integer => "integer"
  | .operator op => "'" ++ op.text ++ "'"
  | .leftParen => "'('"
  | .rightParen => "')'"
  | .endOfInput => "end of input"

def kind : Token → Kind
  | .integer _ => .integer
  | .operator op => .operator op
  | .leftParen => .leftParen
  | .rightParen => .rightParen
  | .endOfInput => .endOfInput

def text : Token → String
  | .integer value => "integer " ++ Text.Decimal.write value.toInt
  | .operator op => (Kind.operator op).text
  | .leftParen => Kind.leftParen.text
  | .rightParen => Kind.rightParen.text
  | .endOfInput => Kind.endOfInput.text

def literal? : Token → Option Int64
  | .integer value => some value
  | .operator _ | .leftParen | .rightParen | .endOfInput => none

def operator? : Token → Option Operator
  | .operator op => some op
  | .integer _ | .leftParen | .rightParen | .endOfInput => none

def ofSymbol? : Char → Option Token
  | '(' => some .leftParen
  | ')' => some .rightParen
  | c => (Operator.ofSymbol? c).map .operator

/-- A token and the byte offset at which it stands. -/
structure Placed where
  token : Token
  offset : Nat
deriving DecidableEq

theorem literal?_eq_some_iff {token : Token} {value : Int64} :
    token.literal? = some value ↔ token = .integer value := by
  cases token <;> simp [literal?]

theorem operator?_eq_some_iff {token : Token} {op : Operator} :
    token.operator? = some op ↔ token = .operator op := by
  cases token <;> simp [operator?]

end Token

end Calculator
