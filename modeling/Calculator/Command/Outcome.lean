import Calculator.Answer

/-!
# Outcomes

What running one expression, a script or a prompt prints, which messages it leaves and how it
exits. An expression is tried as it stands; scripts and prompts pass over blank lines and go on
behind expressions that fail.
-/

namespace Calculator.Command

/-- What is printed for each expression. -/
inductive Mode where
  | value
  | translation (style : Notation)
  | tokens
deriving DecidableEq

namespace Mode

def all : List Mode := [.value, .translation .reversePolish, .translation .lisp, .tokens]

def name : Mode → String
  | .value => "value"
  | .translation .reversePolish => "rpn"
  | .translation .lisp => "lisp"
  | .tokens => "tokens"

/-- Names are told apart by case. -/
def ofName? (name : String) : Option Mode := all.find? (·.name == name)

def answer (mode : Mode) (text : String) : Except Error String :=
  match mode with
  | .value => (evaluate text).map fun value => Text.Decimal.write value.toInt
  | .translation style => translate style text
  | .tokens =>
      match tokenize text with
      | .ok found => .ok (Token.listing found)
      | .error error => .error (.lexical error)

end Mode

structure Outcome where
  exit : Nat := 0
  printed : String := ""
  /-- Of a report of an error this is the title; the line and the label that it shows are left
  out. -/
  messages : List String := []
deriving DecidableEq

namespace Outcome

/-- What two pieces of work leave together; the greater exit code stays. -/
def append (first second : Outcome) : Outcome where
  exit := max first.exit second.exit
  printed := first.printed ++ second.printed
  messages := first.messages ++ second.messages

/-- An error is reported with the text and a label at its offset. What is kept of the report is its
title, the message of the error. -/
def ofExpression (mode : Mode) (text : String) : Outcome :=
  match mode.answer text with
  | .ok answer => { printed := answer ++ "\n" }
  | .error error => { exit := 1, messages := [error.message] }

def ofLine (mode : Mode) (line : List Char) : Outcome :=
  if Text.isBlank line then {} else ofExpression mode (String.ofList line)

def ofScript (mode : Mode) (text : String) : Outcome :=
  ((Text.lines text.toList).map (ofLine mode)).foldr append {}

def unreadable (path : String) : Outcome where
  exit := 2
  messages :=
    ["Failed to read the input file '" ++ path ++ "'. Perhaps this file does not exist?"]

def ofFile (mode : Mode) (path : String) (content? : Option (List UInt8)) : Outcome :=
  match content?.bind Text.decode? with
  | some text => ofScript mode text
  | none => unreadable path

def undecodable : Outcome where
  exit := 1
  messages := ["Error: stream did not contain valid UTF-8"]

/-- At a prompt an expression that fails does not change the exit code. -/
def ofPromptLines (mode : Mode) : List (List UInt8) → Outcome
  | [] => {}
  | bytes :: rest =>
      match Text.decode? bytes with
      | some text => append { ofLine mode text.toList with exit := 0 } (ofPromptLines mode rest)
      | none => undecodable

def ofPrompt (mode : Mode) (bytes : List UInt8) : Outcome :=
  ofPromptLines mode (Text.byteLines bytes)

end Outcome

end Calculator.Command
