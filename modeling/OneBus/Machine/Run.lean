import OneBus.Machine.Tick
import OneBus.Clock

/-!
Longer advances. A step ticks until the machine is between two instructions or has stopped. Its bound
is the work that the queue stands for: a tick for each word, and three more for each word that
decodes, since no opcode has more words and none of them decodes in turn. A run ticks on a clock
until the machine stops or a limit is reached.
-/

namespace OneBus

/-- ticks that a word may lead to, its own included -/
def ControlWord.work (w : ControlWord) : Nat := if w.contains .instructionIn then 4 else 1

namespace Machine

variable {δ : Type} [Peripheral δ]

def work (m : Machine δ) : Nat := m.pending.foldr (fun w n => w.work + n) 0

/-- at most so many ticks; `last` is the opcode decoded so far -/
def stepWithin : Nat → Option Opcode → Machine δ → Machine δ × Except MachineError (Option Opcode)
  | 0, last, m => (m, .ok last)
  | n + 1, last, m =>
    match m.tick with
    | (m, .ok report) =>
      let last := report.decoded <|> last
      if m.phase = .idle ∨ ¬ m.isRunning then (m, .ok last) else stepWithin n last m
    | (m, .error e) => (m, .error e)

/-- completes the current instruction; gives the opcode decoded on the way -/
def step (m : Machine δ) : Machine δ × Except MachineError (Option Opcode) :=
  stepWithin m.work none m

/-- a tick for the clock, which goes on while the machine runs -/
def beat : StateM (Machine δ) (Except MachineError Bool) := fun m =>
  match m.tick with
  | (m, .ok _) => (.ok m.isRunning, m)
  | (m, .error e) => (.error e, m)

/-- ticks on a clock until the machine stops or `limit` ticks are issued; gives their number, if it
comes to an end -/
def runOn (clock : Clock) (limit : Option Nat) (m : Machine δ) :
    Machine δ × Option (Except MachineError Nat) :=
  (clock.run limit (fun _ => pure ()) beat m).swap

def run (limit : Option Nat) (m : Machine δ) : Machine δ × Option (Except MachineError Nat) :=
  m.runOn .unthrottled limit

end Machine
end OneBus
