import OneBus.Memory

/-!
Devices and the ports that they sit on. A device sees the values written to its port, is asked for a
value on an input, and is told once when the machine stops. What it has to say about a write goes
into the machine's journal as notes.
-/

namespace OneBus

inductive Level
  | trace | debug | info | warn
  deriving DecidableEq

def Level.name : Level → String
  | trace => "TRACE"
  | debug => "DEBUG"
  | info => "INFO"
  | warn => "WARN"

/-- a remark of a device -/
structure Note where
  level : Level
  text : String
  deriving DecidableEq

class Peripheral (δ : Type) where
  write : δ → Word → δ × List Note
  drive : δ → Word × δ
  disconnect : δ → δ

structure Port (δ : Type) where
  device : δ
  /-- what was last written to the port -/
  value : Word := 0

def Port.map {δ ε : Type} (f : δ → ε) (port : Port δ) : Port ε := ⟨f port.device, port.value⟩

/-- what reached a device -/
inductive Transfer
  | written (port : Nat) (value : Word)
  | driven (port : Nat) (value : Word)
  | disconnected (port : Nat)
  deriving DecidableEq

end OneBus
