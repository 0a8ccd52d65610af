import Calculator.Token

/-!
# What can be wrong with an expression

Each error is a cause with the place where it was met. All wording is in `reason`; a message is
the reason with the place in front.
-/

namespace Calculator

/-- A reason begins with words that tell what kind of error it is for. -/
structure Reason where
  opening : String
  details : String

def Reason.text (reason : Reason) : String := reason.opening ++ reason.details

inductive LexError where
  | unrecognizedCharacter (character : Char) (offset : Nat)
  | integerOverflow (literal : String) (offset : Nat)
deriving DecidableEq

inductive SyntaxError where
  | emptyExpression
  | unexpectedToken (expected : Token.Kind) (found : Token.Placed)
  | expectedOperand (found : Token.Placed)
  | unclosedParenthesis (openedAt : Nat) (found : Token.Placed)
  | trailingInput (found : Token.Placed)
  | nestingTooDeep (limit : Nat) (offset : Nat)
deriving DecidableEq

inductive EvaluationError where
  | divisionByZero (offset : Nat)
  | overflow (op : Operator) (offset : Nat)
deriving DecidableEq

inductive Error where
  | lexical (error : LexError)
  | syntactic (error : SyntaxError)
  | evaluation (error : EvaluationError)
deriving DecidableEq

namespace LexError

def offset : LexError → Nat
  | .unrecognizedCharacter _ offset | .integerOverflow _ offset => offset

def reason : LexError → Reason
  | .unrecognizedCharacter character _ => ⟨"Unrecognized character '", character.toString ++ "'."⟩
  | .integerOverflow literal _ => ⟨"Integer literal ", literal ++ " is too large."⟩

end LexError

namespace SyntaxError

/-- An empty expression is at fault where it starts. -/
def offset : SyntaxError → Nat
  | .emptyExpression => 0
  | .unexpectedToken _ found | .expectedOperand found | .unclosedParenthesis _ found
  | .trailingInput found => found.offset
  | .nestingTooDeep _ offset => offset

def reason : SyntaxError → Reason
  | .emptyExpression => ⟨"Empty expression.", ""⟩
  | .unexpectedToken expected found =>
      ⟨"Expected " ++ expected.text ++ ", found ", found.token.text ++ "."⟩
  | .expectedOperand found => ⟨"Expected an integer or '(', found ", found.token.text ++ "."⟩
  | .unclosedParenthesis openedAt found =>
      ⟨"Expected ')' to close the '(' at offset ",
        toString openedAt ++ (", found " ++ (found.token.text ++ "."))⟩
  | .trailingInput found => ⟨"Extra input after expression: ", found.token.text ++ "."⟩
  | .nestingTooDeep limit _ => ⟨"Parentheses nested deeper than ", toString limit ++ " levels."⟩

end SyntaxError

namespace EvaluationError

def offset : EvaluationError → Nat
  | .divisionByZero offset | .overflow _ offset => offset

def reason : EvaluationError → Reason
  | .divisionByZero _ => ⟨"Division by zero.", ""⟩
  | .overflow op _ => ⟨"Integer overflow while computing '", op.text ++ "'."⟩

end EvaluationError

namespace Error

def offset : Error → Nat
  | .lexical error => error.offset
  | .syntactic error => error.offset
  | .evaluation error => error.offset

def reason : Error → Reason
  | .lexical error => error.reason
  | .syntactic error => error.reason
  | .evaluation error => error.reason

def message (error : Error) : String :=
  "Error at offset " ++ toString error.offset ++ ": " ++ error.reason.text

example : message (.syntactic (.unclosedParenthesis 1 ⟨.integer 2, 5⟩)) =
    "Error at offset 5: Expected ')' to close the '(' at offset 1, found integer 2." := by decide

end Error

end Calculator
