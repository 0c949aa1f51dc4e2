import Templating.CommandLine
import Templating.Files.Memory

/-!
# The program

Runs the command line on the files of the system. A run is repeated with every file that it asked
for and that was not known before, until it asks for no other.
-/

namespace Templating.Program

/-- What is known of the files of the system. -/
abbrev Known := List (Path × Except String (List UInt8))

/-- The answer of the system for a file that is known; any answer does for another one, whose run
is repeated. -/
def Known.read (known : Known) (p : Path) : Except String (List UInt8) :=
  match known.find? fun e => e.1 == p with
  | some e => e.2
  | none => .error MemoryFiles.absent

/-- An error of the system by its text and number. The number may come with its sign changed, and
the text without a capital. -/
def numbered (details : String) (code : UInt32) : String :=
  let number := if code < 0x80000000 then code else 0 - code
  details.capitalize ++ " (os error " ++ toString number ++ ")"

/-- The words of the system for an error. -/
def reason (e : IO.Error) : String :=
  match e with
  | .noFileOrDirectory _ code details => numbered details code
  | .inappropriateType _ code details => numbered details code
  | .permissionDenied _ code details => numbered details code
  | .invalidArgument _ code details => numbered details code
  | .resourceExhausted _ code details => numbered details code
  | e => toString e

/-- Ask the system for a file. -/
def fetch (p : Path) : IO (Except String (List UInt8)) := do
  try
    let content ← IO.FS.readBinFile p.text
    return .ok content.toList
  catch e =>
    return .error (reason e)

/-- Run until every file asked for is known. -/
partial def settle (args : List String) (input : Option (List UInt8)) (known : Known) :
    IO (Option Outcome) := do
  let outcome := CommandLine.run (known.length + 2) ⟨args, input, known.read⟩
  let asked := (outcome.map Outcome.reads).getD []
  match asked.find? fun p => (known.find? fun e => e.1 == p).isNone with
  | some p => settle args input (known ++ [(p, ← fetch p)])
  | none => return outcome

/-- The standard input is needed. -/
def needsInput (args : List String) : Bool :=
  match Arguments.ofList args with
  | .ok a => a.input.isNone
  | .error _ => false

/-- The standard input, unless it is a terminal or not needed. -/
def standardInput (args : List String) : IO (Option (List UInt8)) := do
  let stdin ← IO.getStdin
  if !needsInput args || (← stdin.isTty) then return none
  let content ← stdin.readBinToEnd
  return some content.toList

end Templating.Program

open Templating in
/-- The program. -/
def main (args : List String) : IO UInt32 := do
  let input ← Program.standardInput args
  match ← Program.settle args input [] with
  | none => return CommandLine.aborted.toUInt32
  | some outcome =>
    IO.print outcome.output
    IO.eprint outcome.complaint
    return outcome.status.toUInt32
