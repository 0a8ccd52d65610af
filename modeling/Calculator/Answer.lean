import Calculator.Expression

/-!
# Evaluating and translating

What can be done with a text: compute its value, write it in another notation, list its tokens.
Each has a log, which is that of the scans made and, if an answer was found, a record of it.
-/

namespace Calculator

/-!
## Log records

Scanning leaves a record of each token that was found. The end of the text and a scan that failed
leave none.
-/

inductive Level where
  | debug
  | trace
deriving DecidableEq

def Level.name : Level → String
  | .debug => "debug"
  | .trace => "trace"

structure Record where
  level : Level
  text : String
deriving DecidableEq

def Record.ofScan? : Scan → Option Record
  | .ok placed =>
      if placed.token = .endOfInput then none
      else some ⟨.trace,
        "lexed " ++ placed.token.text ++ " at offset " ++ toString placed.offset⟩
  | .error _ => none

/-! ## Answers -/

def evaluation (text : String) : Expression.Run Unit Int64 :=
  Expression.parse arithmetic text ()

def translation (style : Notation) (text : String) : Expression.Run Unit String :=
  Expression.parse style.semantics text ()

def evaluate (text : String) : Except Error Int64 := (evaluation text).result

def translate (style : Notation) (text : String) : Except Error String :=
  (translation style text).result

def Notation.title : Notation → String
  | .reversePolish => "ReversePolish"
  | .lisp => "Lisp"

def Expression.Run.log {σ α : Type} (run : Expression.Run σ α) (conclude : α → String) :
    List Record :=
  run.scans.filterMap Record.ofScan? ++
    match run.result with
    | .ok value => [⟨.debug, conclude value⟩]
    | .error _ => []

def evaluationLog (text : String) : List Record :=
  (evaluation text).log fun value =>
    "evaluated " ++ Text.quote text ++ " to " ++ Text.Decimal.write value.toInt

def translationLog (style : Notation) (text : String) : List Record :=
  (translation style text).log fun answer =>
    "translated " ++ Text.quote text ++ " to " ++ style.title ++ ": " ++ answer

def tokenizationLog (text : String) : List Record :=
  (Cursor.ofText text).untilEnd.filterMap Record.ofScan?

end Calculator
