import OneBus.CommandLine.Execution
import OneBus.Debugger.Keys
import OneBus.Debugger.View

/-!
The program: the command line on real files, a real clock and a terminal. The debugger takes its keys
from lines of input and draws itself after each line; a run goes on for a while after each.
-/

namespace OneBus.CommandLine

open Files

/-- the number of an error, which some calls hand over with its sign turned -/
def errorNumber (code : UInt32) : Nat :=
  if code.toNat < 0x80000000 then code.toNat else UInt32.size - code.toNat

def numbered (code : UInt32) (text : String) : FileError :=
  match errorNumber code with
  | 2 => .missing
  | 20 => .notDirectory
  | 21 => .directory
  | 36 => .tooLong
  | n => .refused (text.capitalize ++ " (os error " ++ toString n ++ ")")

def fileError : IO.Error → FileError
  | .noFileOrDirectory _ code text | .inappropriateType _ code text
  | .permissionDenied _ code text | .resourceExhausted _ code text | .invalidArgument _ code text
  | .alreadyExists _ code text | .otherError code text => numbered code text
  | other => .refused (toString other)

def guarded {α : Type} (path : String) (x : IO α) : IO (Except FileError α) := do
  if path.contains '\x00' then return .error .nulByte
  return (← x.toBaseIO).mapError fileError

/-- in whole milliseconds, and never too short -/
def pause (nanoseconds : Nat) : IO Unit :=
  IO.sleep (UInt32.ofNat (min ((nanoseconds + 999999) / 1000000) 1000000000))

def drawn (d : Debugger) : String := unlines (d.draw 100 40).texts

/-- instructions of a continuous run between two lines of input -/
def stretch : Nat := 10000

partial def session (input : IO.FS.Stream) (d : Debugger) : IO Unit := do
  IO.print (drawn d)
  let keys := (← input.getLine).toList
  if keys.isEmpty || keys.contains 'q' then return
  let d := (keys.filterMap Key.ofChar?).foldl Debugger.press d
  session input (d.carryOn stretch 0).2

instance : Console IO where
  readBytes path := do
    return (← guarded path (IO.FS.readBinFile path)).map fun bytes => bytes.toList
  writeBytes path bytes := guarded path (IO.FS.writeBinFile path (ByteArray.mk bytes.toArray))
  print text := do
    let out ← IO.getStdout
    out.putStr text
    out.flush
  complain := IO.eprint
  now := IO.monoNanosNow
  sleep := pause
  converse d := do session (← IO.getStdin) d

end OneBus.CommandLine

def main (arguments : List String) : IO UInt32 := OneBus.CommandLine.perform arguments
