import OneBus.Machine.Tick

/-!
The machine as a program sees it: one transition for a whole instruction. It reads an opcode and an
operand at the program counter, takes effect, and leaves nothing of the words, the queue or the bus
behind. Each access that can fail says what the machine is like when it does.
-/

namespace OneBus

/-- whether the operand goes to `Address` first, a tick ahead of the access -/
def Opcode.isDirect : Opcode → Bool
  | load _ | store _ | add | subtract | compare => true
  | _ => false

namespace Machine

variable {δ : Type}

/-- puts a word into a register; the arithmetic unit follows `A` and `B` -/
def put (m : Machine δ) (r : Register) (v : Word) : Machine δ :=
  let registers := m.registers.set r v
  { m with registers, alu := if r = .a ∨ r = .b then ⟨registers.a, registers.b⟩ else m.alu }

def readCell (m : Machine δ) (a : Word) : Except MachineError Word :=
  (m.memory.read a).mapError .memory

def writeCell (m : Machine δ) (a v : Word) : Except MachineError (Machine δ) :=
  ((m.memory.write a v).map fun memory => { m with memory }).mapError .memory

section

variable {m : Machine δ} {a v : Word} {e : MemoryError} {memory : Memory}

theorem readCell_ok (read : m.memory.read a = .ok v) : m.readCell a = .ok v := by
  rw [readCell, read]
  rfl

theorem readCell_error (read : m.memory.read a = .error e) :
    m.readCell a = .error (.memory e) := by
  rw [readCell, read]
  rfl

theorem writeCell_ok (write : m.memory.write a v = .ok memory) :
    m.writeCell a v = .ok { m with memory } := by
  rw [writeCell, write]
  rfl

theorem writeCell_error (write : m.memory.write a v = .error e) :
    m.writeCell a v = .error (.memory e) := by
  rw [writeCell, write]
  rfl

end

/-- the operand of the instruction that has been fetched -/
def operand (m : Machine δ) : Word := m.registers.instruction

def spend (m : Machine δ) (ticks : Nat) : Machine δ := { m with ticks := m.ticks + ticks }

/-- between two instructions -/
def resting (m : Machine δ) : Machine δ := { m with bus := 0, queue := [], phase := .idle }

/-- about to read an opcode: `Address` is kept in its backup and holds the program counter -/
def seeking (m : Machine δ) : Machine δ :=
  { m with registers := { m.registers with
      address := m.counter
      addressBackup := m.registers.address } }

/-- the opcode read and decoded -/
def opened (m : Machine δ) (op : Opcode) (code : Word) : Machine δ :=
  { m.seeking with
    registers := { m.seeking.registers with instruction := code, programCounter := m.counter + 1 }
    operation := op.microprogram.operation
    current := some op
    instructions := m.instructions + 1 }

/-- about to read the operand -/
def aiming (m : Machine δ) (op : Opcode) (code : Word) : Machine δ :=
  (m.opened op code).setRegister .address (m.counter + 1)

/-- the whole instruction read, and `Address` given back -/
def fetched (m : Machine δ) (op : Opcode) (x : Word) : Machine δ :=
  { m with
    registers := { m.registers with
      instruction := x
      programCounter := m.counter + 2
      addressBackup := m.registers.address }
    operation := op.microprogram.operation
    current := some op
    instructions := m.instructions + 1 }

section

variable [Peripheral δ]

/-- what an opcode does to a machine that has fetched it -/
def perform (m : Machine δ) : Opcode → Except MachineError (Machine δ)
  | .move ends => .ok (m.put ends.target.register (m.registers.get ends.source.register))
  | .load r => do
    let v ← m.readCell m.operand
    return (m.put .address m.operand).put r.register v
  | .loadImmediate r => do
    let n ← m.writeCell m.registers.address m.operand
    return n.put r.register m.operand
  | .store r =>
    let n := m.put .address m.operand
    n.writeCell m.operand (n.registers.get r.register)
  | .storeImmediate => m.writeCell m.registers.address m.operand
  | .add => do
    let v ← m.readCell m.operand
    return ((m.put .address m.operand).put .b v).put .accumulator (m.registers.a + v)
  | .subtract => do
    let v ← m.readCell m.operand
    return ((m.put .address m.operand).put .b v).put .accumulator (m.registers.a - v)
  | .sum => do
    let v ← m.readCell m.registers.address
    return (m.put .b v).put .accumulator (m.registers.a + v)
  | .difference => do
    let v ← m.readCell m.registers.address
    return (m.put .b v).put .accumulator (m.registers.a - v)
  | .compare => do
    let _ ← m.readCell m.operand
    return m.put .address m.operand
  | .jump => .ok (m.put .programCounter m.operand)
  | .jumpZero | .jumpCarry => .ok m
  | .input => do
    let (v, ports) ← (m.ports.drive m.registers.b).mapError .port
    return { m with ports }.put .io v
  | .output => do
    let (ports, _) ← (m.ports.write m.registers.address m.registers.io).mapError .port
    return { m with ports }
  | .halt => .ok (m.stop .halted)

/-- stopped by a fault, so many ticks on -/
def broken (m : Machine δ) (ticks : Nat) (e : MachineError) :
    Machine δ × Except MachineError (Option Opcode) :=
  ((m.resting.spend ticks).stop .faulted, .error e)

/-- the end of an instruction that has been fetched, given what it does -/
def outcome (m : Machine δ) (op : Opcode) :
    Except MachineError (Machine δ) → Machine δ × Except MachineError (Option Opcode)
  | .ok n => (n.resting.spend op.microprogram.words.length, .ok (some op))
  | .error e => if op.isDirect then (m.put .address m.operand).broken 2 e else m.broken 1 e

/-- one instruction -/
def instruct (m : Machine δ) : Machine δ × Except MachineError (Option Opcode) :=
  match m.memory.read m.counter with
  | .error e => m.seeking.broken 3 (.memory e)
  | .ok code =>
    match Opcode.ofId? code with
    | none => (m.seeking.setRegister .instruction code).broken 3 (.invalidOpcode code m.counter)
    | some op =>
      match m.memory.read (m.counter + 1) with
      | .error e => (m.aiming op code).broken 5 (.memory e)
      | .ok x =>
        let n := (m.fetched op x).spend 6
        outcome n op (n.perform op)

end

end Machine
end OneBus
