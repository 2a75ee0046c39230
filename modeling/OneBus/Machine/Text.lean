import OneBus.Machine.Basic

/-!
The one-line view of a machine and its parts, for people who look at one.
-/

namespace OneBus

def RegisterBank.text (bank : RegisterBank) : String :=
  "RegisterBank \x7b cells: ["
    ++ String.intercalate ", " (bank.toList.map fun w => Text.decimal w.toInt) ++ "] \x7d"

def Machine.text {δ : Type} (m : Machine δ) : String :=
  "Machine \x7b state: " ++ m.condition.name ++ ", sequencer: " ++ m.phase.name ++ ", ticks: "
    ++ Text.decimal m.ticks ++ ", regs: " ++ m.registers.text ++ ", pending: "
    ++ Text.decimal m.queue.length ++ " \x7d"

end OneBus
