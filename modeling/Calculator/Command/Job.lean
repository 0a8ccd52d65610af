import Calculator.Command.Outcome

/-!
# Jobs

What a command line asks for. Most of it is settled at once; a script needs the content of a
file, and a prompt needs the standard input.
-/

namespace Calculator.Command

/-!
## Help texts

What the command says about itself: its version, its options on a line each, and its options at
length.
-/

def ofLines (lines : List String) : String :=
  String.join (lines.map (· ++ "\n"))

def versionText : String := ofLines ["calcrs 0.1.0"]

def summary : List String :=
  ["A recursive-descent interpreter for integer arithmetic expressions",
    "",
    "Usage: calcrs [OPTIONS] [CONTENTS]",
    "",
    "Arguments:"]

def contentsHelp : String :=
  "The expression (or file path with `--file`). Starts an interactive prompt when omitted"

def fileHelp : String :=
  "Tells calcrs to read expressions from a file, one per line, instead of taking a single " ++
    "expression"

def modeHelp : String := "What to print for each expression"

def shortHelp : String :=
  ofLines (summary ++
    ["  [CONTENTS]  " ++ contentsHelp,
      "",
      "Options:",
      "  -f, --file         " ++ fileHelp,
      "  -m, --mode <MODE>  " ++ modeHelp ++
        " [default: value] [possible values: value, rpn, lisp, tokens]",
      "  -h, --help         Print help (see more with '--help')",
      "  -V, --version      Print version"])

def longHelp : String :=
  ofLines (summary ++
    ["  [CONTENTS]",
      "          " ++ contentsHelp,
      "",
      "Options:",
      "  -f, --file",
      "          " ++ fileHelp,
      "",
      "  -m, --mode <MODE>",
      "          " ++ modeHelp,
      "",
      "          Possible values:",
      "          - value:  The integer value of the expression",
      "          - rpn:    The expression in reverse Polish notation",
      "          - lisp:   The expression in Lisp prefix notation",
      "          - tokens: The token stream produced by the lexer",
      "          ",
      "          [default: value]",
      "",
      "  -h, --help",
      "          Print help (see a summary with '-h')",
      "",
      "  -V, --version",
      "          Print version"])

/-!
## Command line

Arguments are read from left to right, and the first thing that is wrong, or that asks for help
or the version, decides. Options are long, or single letters in a cluster behind one dash. What
is not an option is the one operand: an expression, or the path of a file.
-/

/-- Nothing is set twice. -/
structure Options where
  file : Bool := false
  mode? : Option Mode := none
  operand? : Option String := none
deriving DecidableEq

def Options.mode (options : Options) : Mode := options.mode?.getD .value

inductive Request where
  | run (options : Options)
  | help (long : Bool)
  | version
deriving DecidableEq

inductive UsageError where
  | unknownOption
  | repeatedOption
  | unexpectedValue
  | missingMode
  | unknownMode
  | extraOperand
deriving DecidableEq

namespace Options

def setFile (options : Options) : Except UsageError Options :=
  if options.file then .error .repeatedOption
  else .ok { options with file := true }

def setMode (options : Options) (name : String) : Except UsageError Options :=
  if options.mode?.isSome then .error .repeatedOption
  else
    match Mode.ofName? name with
    | some mode => .ok { options with mode? := some mode }
    | none => .error .unknownMode

def setOperand (options : Options) (operand : String) : Except UsageError Options :=
  if options.operand?.isSome then .error .extraOperand
  else .ok { options with operand? := some operand }

end Options

/-- How far one argument leads: further options, a mode that the next argument has to name, or a
request that is complete. -/
inductive Progress where
  | settled (options : Options)
  | awaitingMode (options : Options)
  | complete (request : Request)

/-- The letters behind one dash. A mode takes all that follows it, without an equals sign in
front; if nothing follows, it is the next argument. -/
def readCluster (options : Options) : List Char → Except UsageError Progress
  | [] => .ok (.settled options)
  | 'f' :: rest =>
      match options.setFile with
      | .ok options => readCluster options rest
      | .error error => .error error
  | ['m'] => .ok (.awaitingMode options)
  | 'm' :: '=' :: name => (options.setMode (String.ofList name)).map .settled
  | 'm' :: name => (options.setMode (String.ofList name)).map .settled
  | 'h' :: _ => .ok (.complete (.help false))
  | 'V' :: _ => .ok (.complete .version)
  | _ :: _ => .error .unknownOption

def readLong (options : Options) (name : String) (value? : Option String) :
    Except UsageError Progress :=
  match name, value? with
  | "file", none => options.setFile.map .settled
  | "mode", some value => (options.setMode value).map .settled
  | "mode", none => .ok (.awaitingMode options)
  | "help", none => .ok (.complete (.help true))
  | "version", none => .ok (.complete .version)
  | name, value? =>
      if name ∈ ["file", "help", "version"] ∧ value?.isSome then .error .unexpectedValue
      else .error .unknownOption

def splitValue (text : List Char) : String × Option String :=
  let name := text.takeWhile (· != '=')
  match text.dropWhile (· != '=') with
  | [] => (String.ofList name, none)
  | _ :: value => (String.ofList name, some (String.ofList value))

/-- One dash alone is an operand. -/
def readArgument (options : Options) (argument : String) : Except UsageError Progress :=
  match argument.toList with
  | '-' :: '-' :: long =>
      let (name, value?) := splitValue long
      readLong options name value?
  | '-' :: c :: rest => readCluster options (c :: rest)
  | _ => (options.setOperand argument).map .settled

/-- Behind two dashes everything is an operand. -/
def readOperands (options : Options) : List String → Except UsageError Request
  | [] => .ok (.run options)
  | argument :: rest =>
      match options.setOperand argument with
      | .ok options => readOperands options rest
      | .error error => .error error

def readArguments (options : Options) : List String → Except UsageError Request
  | [] => .ok (.run options)
  | "--" :: rest => readOperands options rest
  | argument :: rest =>
      match readArgument options argument with
      | .error error => .error error
      | .ok (.complete request) => .ok request
      | .ok (.settled options) => readArguments options rest
      | .ok (.awaitingMode options) =>
          match rest with
          | [] => .error .missingMode
          | name :: rest =>
              match options.setMode name with
              | .ok options => readArguments options rest
              | .error error => .error error

def Request.ofArguments (arguments : List String) : Except UsageError Request :=
  readArguments {} arguments

example : Request.ofArguments ["-fmrpn", "x"] =
    .ok (.run ⟨true, some (.translation .reversePolish), some "x"⟩) := by cbv

/-- Help that has been asked for hides what would be wrong behind it. -/
example : Request.ofArguments ["1", "-hm"] = .ok (.help false) := by cbv

/-- What follows `-m` is a mode, even if it looks like an option. -/
example : Request.ofArguments ["-m", "-h"] = .error .unknownMode := by cbv

example : Request.ofArguments ["--file=x"] = .error .unexpectedValue := by cbv

/-! ## Jobs -/

inductive Job where
  | settled (outcome : Outcome)
  | script (mode : Mode) (path : String)
  | prompt (mode : Mode)

namespace Job

/-- Without an operand there is a prompt, with or without the file option. -/
def ofOptions (options : Options) : Job :=
  match options.operand? with
  | none => .prompt options.mode
  | some operand =>
      if options.file then .script options.mode operand
      else .settled (.ofExpression options.mode operand)

def ofRequest : Request → Job
  | .run options => ofOptions options
  | .help true => .settled { printed := longHelp }
  | .help false => .settled { printed := shortHelp }
  | .version => .settled { printed := versionText }

/-- Wrong usage leaves nothing but the exit code. -/
def ofArguments (arguments : List String) : Job :=
  match Request.ofArguments arguments with
  | .ok request => ofRequest request
  | .error _ => .settled { exit := 2 }

def outcome (file? : String → Option (List UInt8)) (input : List UInt8) : Job → Outcome
  | .settled outcome => outcome
  | .script mode path => .ofFile mode path (file? path)
  | .prompt mode => .ofPrompt mode input

end Job

def run (arguments : List String) (file? : String → Option (List UInt8)) (input : List UInt8) :
    Outcome :=
  (Job.ofArguments arguments).outcome file? input

end Calculator.Command
