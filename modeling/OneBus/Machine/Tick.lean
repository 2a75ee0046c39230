import OneBus.Machine.Basic

/-!
One tick asserts one control word. First the drivers put a value on the bus, in the order of the
lines but registers last, so that a register wins a contended bus. Then the latches take it, in the
order of the lines. Then the program counter moves on, and last the machine halts. Addresses are
those that the address register held before the tick. An access that fails ends the word where it
is, and the machine with it, but the tick counts all the same.
-/

namespace OneBus

/-- a machine in the middle of a word that an access failed in -/
structure Failure (δ : Type) where
  machine : Machine δ
  error : MachineError

/-- what one tick did -/
structure TickReport where
  word : ControlWord
  decoded : Option Opcode
  bus : Word
  deriving DecidableEq

namespace ControlWord

def unitDrivers (w : ControlWord) : List Signal :=
  w.toList.filter fun s => s.isDriver && s.drives.isNone

def registerDrivers (w : ControlWord) : List Signal := w.toList.filter (·.drives.isSome)

def latchers (w : ControlWord) : List Signal := w.toList.filter (·.isLatch)

end ControlWord

namespace Machine

variable {δ : Type} [Peripheral δ]

def drive (m : Machine δ) : Signal → Except (Failure δ) (Machine δ)
  | .memoryOut =>
    match m.memory.read m.registers.address with
    | .ok bus => .ok { m with bus }
    | .error e => .error ⟨m, .memory e⟩
  | .aluEnable => .ok { m with bus := m.alu.result m.operation }
  | .peripheralOut =>
    match m.ports.drive m.registers.b with
    | .ok (bus, ports) => .ok { m with bus, ports }
    | .error e => .error ⟨m, .port e⟩
  | s =>
    match s.drives with
    | some r => .ok { m with bus := m.registers.get r }
    | none => .ok m

/-- a register takes the bus, and the arithmetic unit follows `A` and `B` -/
def latchRegister (m : Machine δ) (r : Register) : Machine δ :=
  let registers := m.registers.set r m.bus
  let alu := if r = .a ∨ r = .b then ⟨registers.a, registers.b⟩ else m.alu
  { m with registers, alu }

/-- the opcode in the instruction register adds its words behind those that are pending -/
def decode (m : Machine δ) (address : Word) : Except (Failure δ) (Machine δ) :=
  match Opcode.ofId? m.registers.instruction with
  | some op =>
    .ok { m.note (.decoded address op) with
      queue := m.queue ++ op.microprogram.words
      operation := op.microprogram.operation
      current := some op
      instructions := m.instructions + 1 }
  | none => .error ⟨m, .invalidOpcode m.registers.instruction address⟩

def latch (address : Word) (m : Machine δ) : Signal → Except (Failure δ) (Machine δ)
  | .memoryIn =>
    match m.memory.write address m.bus with
    | .ok memory => .ok { m with memory }
    | .error e => .error ⟨m, .memory e⟩
  | .peripheralIn =>
    match m.ports.write address m.bus with
    | .ok (ports, notes) =>
      .ok { m with ports, journal := m.journal ++ notes.map Event.remark }
    | .error e => .error ⟨m, .port e⟩
  | .instructionIn => (m.latchRegister .instruction).decode address
  | s =>
    match s.latches with
    | some r => .ok (m.latchRegister r)
    | none => .ok m

/-- the part of a word that cannot fail -/
def finish (w : ControlWord) (m : Machine δ) : Machine δ :=
  let m :=
    if w.contains .programCounterIncrement then
      { m with registers := m.registers.increment .programCounter }
    else m
  if w.contains .halt then (m.note (.halted (m.ticks + 1))).stop .halted else m

def assert (m : Machine δ) (w : ControlWord) : Except (Failure δ) (Machine δ) := do
  let address := m.registers.address
  let m ← (w.unitDrivers ++ w.registerDrivers).foldlM drive m
  let m ← w.latchers.foldlM (latch address) m
  return m.finish w

/-- what is to be asserted: an empty queue starts a fetch -/
def pending (m : Machine δ) : List ControlWord := if m.queue.isEmpty then fetch else m.queue

/-- counts the tick and clears the bus -/
def settle (m : Machine δ) : Machine δ :=
  { m with
    lastBus := m.bus
    bus := 0
    ticks := m.ticks + 1
    phase := if m.queue.isEmpty then .idle else m.phase }

def fault (m : Machine δ) (e : MachineError) : Machine δ :=
  (m.note (.faulted m.ticks e)).stop .faulted

def tick (m : Machine δ) : Machine δ × Except MachineError TickReport :=
  if m.isRunning then
    let word := m.pending.headD .empty
    let begun := { m with queue := m.pending.tail, phase := .executing }.note (.tick m.ticks word)
    match begun.assert word with
    | .ok done =>
      let decoded := if word.contains .instructionIn then done.current else none
      (done.settle, .ok ⟨word, decoded, done.bus⟩)
    | .error f => (f.machine.settle.fault f.error, .error f.error)
  else (m, .error (.notRunning m.condition))

end Machine
end OneBus
