import OneBus.Device
import OneBus.Text.Split

/-!
The log behind the output pane. The display of a debugged machine prints into it, and it lives on when
the machine is replaced. A display keeps its prints in a sink of its own, and the log follows that
sink: after each call to the machine it gets what the call has added.
-/

namespace OneBus

structure OutputLog where
  /-- the texts that were written, latest first -/
  writes : List String := []
  deriving DecidableEq

namespace OutputLog

def text (log : OutputLog) : String := String.join log.writes.reverse

/-- writes what has been printed since there were so many prints -/
def follow (log : OutputLog) (known : Nat) (prints : List String) : OutputLog where
  writes := prints.take (prints.length - known) ++ log.writes

def clear (_ : OutputLog) : OutputLog := {}

/-- the last lines -/
def lines (log : OutputLog) (count : Nat) : List String :=
  let lines := Text.lines log.text
  lines.drop (lines.length - count)

theorem follow_self (log : OutputLog) (prints : List String) :
    log.follow prints.length prints = log := by
  simp [follow]

theorem writes_follow (log : OutputLog) (more prints : List String) :
    (log.follow prints.length (more ++ prints)).writes = more ++ log.writes := by
  simp [follow]

end OutputLog
end OneBus
