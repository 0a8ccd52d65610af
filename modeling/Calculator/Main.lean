import Calculator.Command.Job

/-!
# Command

The command itself: it reads what its job needs, and writes the outcome.
-/

namespace Calculator.Command

def readFile? (path : String) : IO (Option (List UInt8)) := do
  try
    return some (← IO.FS.readBinFile path).data.toList
  catch _ => return none

def Outcome.emit (outcome : Outcome) : IO UInt32 := do
  let out ← IO.getStdout
  out.putStr outcome.printed
  out.flush
  for message in outcome.messages do
    IO.eprintln message
  return UInt32.ofNat outcome.exit

/-- One line with its line feed, or what stands before the end of the input. -/
partial def readLine (input : IO.FS.Stream) (line : List UInt8) : IO (List UInt8) := do
  let chunk ← input.read 1
  match chunk.data.toList with
  | [] => return line.reverse
  | byte :: _ =>
      if byte = 10 then return (byte :: line).reverse
      else readLine input (byte :: line)

/-- Lines are answered as they come in. -/
partial def converse (mode : Mode) (input : IO.FS.Stream) : IO UInt32 := do
  match ← readLine input [] with
  | [] => return 0
  | line =>
      let exit ← (Outcome.ofPrompt mode line).emit
      if exit = 0 then converse mode input else return exit

def Job.perform : Job → IO UInt32
  | .settled outcome => outcome.emit
  | .script mode path => do (Outcome.ofFile mode path (← readFile? path)).emit
  | .prompt mode => do converse mode (← IO.getStdin)

end Calculator.Command

def main (arguments : List String) : IO UInt32 :=
  (Calculator.Command.Job.ofArguments arguments).perform
