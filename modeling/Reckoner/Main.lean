import Reckoner.CommandLine.Program
import Std.Time.Format
import Std.Time.Zoned

/-!
# The command line

Reads the arguments and the variable that names the log level, writes the two streams
and ends with the status.
-/

namespace Reckoner
namespace CommandLine

open Log

def levelVariable : String := "INFIX_CALCULATOR_LOG_LEVEL"

/-- The local time, to the millisecond. -/
def stamp : IO String := do
  let now ← Std.Time.PlainDateTime.now
  return now.format "uuuu-MM-dd HH:mm:ss,SSS"

def writeLine (stream : IO.FS.Stream) (line : String) : IO Unit := do
  stream.putStr (line ++ "\n")
  stream.flush

def Entry.write : Entry → IO Unit
  | output line => do writeLine (← IO.getStdout) line
  | error line => do writeLine (← IO.getStderr) line
  | event e => do writeLine (← IO.getStderr) (e.line (← stamp))

end CommandLine
end Reckoner

open Reckoner CommandLine in
def main (arguments : List String) : IO UInt32 := do
  let setting? ← IO.getEnv levelVariable
  let (_, transcript, ending) := run .initial setting? arguments
  transcript.forM Entry.write
  match ending with
  | .status code | .left code => return code.toUInt32
  | .refused refusal =>
    writeLine (← IO.getStderr) refusal.message
    return 1
