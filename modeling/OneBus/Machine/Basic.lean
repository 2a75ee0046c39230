import OneBus.Machine.Journal

/-!
The machine: registers, memory, arithmetic unit and ports around one bus, and the queue of control
words that are still to be asserted. This file has the state and what can be done to it from
outside; ticks are in `Machine.Tick`. Stopping, for whatever reason, empties the queue and
disconnects every device, and only a running machine can be stopped.
-/

namespace OneBus

inductive Phase
  | idle | executing
  deriving DecidableEq

def Phase.name : Phase → String
  | idle => "Idle"
  | executing => "Executing"

structure Machine (δ : Type) where
  registers : RegisterBank := {}
  memory : Memory
  /-- what is on the bus; nothing is between two ticks -/
  bus : Word := 0
  alu : Alu := {}
  /-- the sign of the instruction that runs -/
  operation : Operation := .add
  ports : PortTable δ := {}
  /-- control words to come, next one first -/
  queue : List ControlWord := []
  phase : Phase := .idle
  condition : Condition := .running
  /-- the opcode decoded last -/
  current : Option Opcode := none
  /-- what was on the bus at the end of the last tick -/
  lastBus : Word := 0
  ticks : Nat := 0
  instructions : Nat := 0
  journal : Array Event := #[]

namespace Machine

variable {δ : Type}

/-- zeroed memory of so many bytes, no devices -/
def new (memorySize : Nat) : Machine δ := { memory := .zero memorySize }

def isRunning (m : Machine δ) : Bool := m.condition == .running

def note (m : Machine δ) (e : Event) : Machine δ := { m with journal := m.journal.push e }

def setRegister (m : Machine δ) (r : Register) (w : Word) : Machine δ :=
  { m with registers := m.registers.set r w }

def counter (m : Machine δ) : Word := m.registers.programCounter

/-- copies an image into memory and points the program counter at its first instruction -/
def load (m : Machine δ) (image : Image) : Machine δ :=
  let bytes := image.bytes
  let m := if bytes.length > m.memory.size then m.note (.imageCut bytes.length m.memory.size) else m
  let m := { m with memory := m.memory.load bytes }
  (m.setRegister .programCounter image.start).note (.imageLoaded image.body.length image.start)

def ofImage (image : Image) (memorySize : Nat) : Machine δ := (new memorySize).load image

def attach (m : Machine δ) (device : δ) : Machine δ :=
  let (id, ports) := m.ports.plug device
  { m with ports }.note (.attached id)

theorem attach_eq (m : Machine δ) (device : δ) :
    m.attach device = { m with ports := m.ports.attach device }.note (.attached m.ports.length) := by
  rw [attach, PortTable.attach, PortTable.plug_eq]

/-- writes a cell from outside -/
def poke (m : Machine δ) (address value : Word) : Except MemoryError (Machine δ) :=
  (m.memory.write address value).map fun memory => { m with memory }

/-- queues a microprogram as if it had just been decoded, its sign included -/
def enqueue (m : Machine δ) (program : Microprogram) : Machine δ :=
  let queue := m.queue ++ program.words
  { m with
    queue
    operation := program.operation
    phase := if queue.isEmpty then m.phase else .executing }

def stop [Peripheral δ] (m : Machine δ) (condition : Condition) : Machine δ :=
  { m with condition, queue := [], phase := .idle, ports := m.ports.disconnectAll }

/-- stops a running machine from outside; also what happens to it when it is given up -/
def halt [Peripheral δ] (m : Machine δ) : Machine δ :=
  if m.isRunning then m.stop .halted else m

end Machine
end OneBus
