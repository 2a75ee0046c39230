import OneBus.Debugger.Basic

/-!
The keys of the debugger. To tick or to step by hand ends a continuous run.
-/

namespace OneBus

inductive Key
  | tick | step | run | pause | breakpoint | reset | up | down
  deriving DecidableEq

/-- `-` and `+` stand for the arrow keys up and down -/
def Key.ofChar? : Char → Option Key
  | 't' => some tick
  | 's' => some step
  | 'r' => some run
  | 'p' => some pause
  | 'b' => some breakpoint
  | 'x' => some reset
  | '-' => some up
  | '+' => some down
  | _ => none

namespace Debugger

/-- the next cell becomes the first one shown, unless there is none -/
def scrollDown (d : Debugger) : Debugger :=
  if d.scroll + 1 < d.machine.memory.length then d.scrollTo (d.scroll + 1) else d

def press (d : Debugger) : Key → Debugger
  | .tick => d.pause.tickOnce
  | .step => d.pause.step
  | .run => d.run
  | .pause => { d.pause with status := .paused }
  | .breakpoint => d.toggleBreakpoint
  | .reset => d.reset
  | .up => d.scrollTo (d.scroll - 1)
  | .down => d.scrollDown

end Debugger
end OneBus
