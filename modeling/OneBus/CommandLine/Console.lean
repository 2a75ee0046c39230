import OneBus.Debugger.Basic
import OneBus.Files.Tree

/-!
What the commands need of the place they run in: files, two streams of text, a clock on the wall, and
a person to debug with. A world is such a place as a value: its time passes only by sleeping, and
nobody debugs in it.
-/

namespace OneBus.CommandLine

open Files

class Console (m : Type → Type) extends FileAccess m where
  print : String → m Unit
  complain : String → m Unit
  /-- nanoseconds, from wherever they are counted -/
  now : m Nat
  /-- for so many nanoseconds -/
  sleep : Nat → m Unit
  /-- lets a person work with a debugger -/
  converse : Debugger → m Unit

export Console (print complain now sleep converse)

structure World where
  tree : Tree := {}
  printed : String := ""
  complaints : String := ""
  time : Nat := 0
  deriving DecidableEq

instance : Console (StateM World) where
  readBytes path := do return (← get).tree.read path
  writeBytes path bytes := do
    match (← get).tree.write path bytes with
    | .ok tree => modify ({ · with tree }); return .ok ()
    | .error e => return .error e
  print text := modify fun w => { w with printed := w.printed ++ text }
  complain text := modify fun w => { w with complaints := w.complaints ++ text }
  now := do return (← get).time
  sleep n := modify fun w => { w with time := w.time + n }
  converse _ := return ()

end OneBus.CommandLine
