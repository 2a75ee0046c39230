import OneBus.Debugger.OutputLog
import OneBus.Listing
import OneBus.Machine.Run

/-!
The debugger: a machine with a display on its only port, a log of what is printed there, breakpoints
on addresses, and a status line. A continuous run advances by one instruction at a time and stops at
the first instruction boundary with a breakpoint, when the machine stops, or when a step fails. A
reset clears the log and starts over with the same image, but keeps the breakpoints.
-/

namespace OneBus

inductive Status
  | ready
  | stopped (condition : Condition)
  | ticked (ticks : Nat) (report : TickReport)
  | stepped (counter : Word) (op : Opcode)
  | finished
  | failed (error : MachineError)
  | running
  | paused
  | stoppedAfter (ticks : Nat)
  | breakpoint (counter : Word)
  | breakpointSet (counter : Word)
  | breakpointRemoved (counter : Word)
  | reset
  deriving DecidableEq

def Status.text : Status → String
  | ready => "Ready. Press 't' to tick, 's' to step, 'r' to run, 'q' to quit."
  | stopped c => "Machine stopped: " ++ c.name
  | ticked ticks report =>
    "T" ++ Text.decimal ticks ++ ": " ++ report.word.text ++
      match report.decoded with
      | some op => "  decoded " ++ op.name
      | none => "  bus=" ++ Text.decimal report.bus.toInt
  | stepped counter op => Text.zeroDecimal 4 counter.toInt ++ ": " ++ op.name
  | finished => "Finished the instruction in progress."
  | failed e => "Error: " ++ e.message
  | running => "Running..."
  | paused => "Paused."
  | stoppedAfter ticks => "Stopped after " ++ Text.decimal ticks ++ " ticks"
  | breakpoint counter => "Breakpoint at PC=" ++ Text.decimal counter.toInt
  | breakpointSet counter => "Set breakpoint at PC=" ++ Text.decimal counter.toInt
  | breakpointRemoved counter => "Removed breakpoint at PC=" ++ Text.decimal counter.toInt
  | reset => "Reset. Ready."

structure Debugger where
  machine : Machine Device
  image : Image
  memorySize : Nat
  /-- without repetition, in increasing order -/
  breakpoints : List Word := []
  running : Bool := false
  status : Status := .ready
  /-- the first cell that the memory pane shows -/
  scroll : Nat := 0
  /-- what the display has printed; it goes over to the next machine -/
  log : OutputLog := {}

/-- a row of the listing around the program counter -/
structure ListingRow where
  address : Word
  text : String
  isCurrent : Bool
  deriving DecidableEq

def insertBreakpoint (w : Word) : List Word → List Word
  | [] => [w]
  | b :: rest =>
    if w = b then b :: rest
    else if w.toInt < b.toInt then w :: b :: rest
    else b :: insertBreakpoint w rest

theorem mem_insertBreakpoint {w b : Word} {bs : List Word} :
    b ∈ insertBreakpoint w bs ↔ b = w ∨ b ∈ bs := by
  induction bs with
  | nil => simp [insertBreakpoint]
  | cons c rest ih =>
    unfold insertBreakpoint
    split
    · next h => simp [h]
    · split
      · simp
      · simp only [List.mem_cons, ih, or_left_comm]

namespace Debugger

def boot (image : Image) (memorySize : Nat) : Machine Device :=
  (Machine.ofImage image memorySize).attach (.display {})

def new (image : Image) (memorySize : Nat) : Debugger :=
  { machine := boot image memorySize, image, memorySize }

/-- what the display on the first port has printed, latest first -/
def shown (m : Machine Device) : List String := (m.ports.devices.head?.map Device.prints).getD []

def counter (d : Debugger) : Word := d.machine.counter

/-- leaves off because the machine does not run -/
def refuse (d : Debugger) : Debugger :=
  { d with status := .stopped d.machine.condition, running := false }

/-- lets the machine act, with its display printing into the log; it is given away meanwhile, so that
it can change in place -/
@[noinline]
def lend {α : Type} (d : Debugger) (act : Machine Device → Machine Device × α) : Debugger × α :=
  match d with
  | ⟨machine, image, memorySize, breakpoints, running, status, scroll, log⟩ =>
    let known := (shown machine).length
    let (machine, result) := act machine
    let log := log.follow known (shown machine)
    (⟨machine, image, memorySize, breakpoints, running, status, scroll, log⟩, result)

/-- behind a call that has brought the machine there -/
def moved (d : Debugger) (m : Machine Device) : Debugger :=
  { d with machine := m, log := d.log.follow (shown d.machine).length (shown m) }

theorem lend_eq {α : Type} (d : Debugger) (act : Machine Device → Machine Device × α) :
    d.lend act = (d.moved (act d.machine).1, (act d.machine).2) := rfl

def fail (d : Debugger) (e : MachineError) : Debugger :=
  { d with status := .failed e, running := false }

def tickOnce (d : Debugger) : Debugger :=
  if d.machine.isRunning then
    match d.lend Machine.tick with
    | (d, .ok report) => { d with status := .ticked d.machine.ticks report }
    | (d, .error e) => d.fail e
  else d.refuse

/-- a step of a machine, and where it began -/
def stepFrom (m : Machine Device) : Machine Device × Word × Except MachineError (Option Opcode) :=
  let start := m.counter
  let (m, outcome) := m.step
  (m, start, outcome)

/-- to the end of the current instruction -/
def step (d : Debugger) : Debugger :=
  if d.machine.isRunning then
    match d.lend stepFrom with
    | (d, start, .ok (some op)) => { d with status := .stepped start op }
    | (d, _, .ok none) => { d with status := .finished }
    | (d, _, .error e) => d.fail e
  else d.refuse

/-- starts a continuous run, which `tick` carries on -/
def run (d : Debugger) : Debugger := { d with running := true, status := .running }

def pause (d : Debugger) : Debugger := { d with running := false }

/-- whether a run has to stop before the next fetch -/
def atBreakpoint (d : Debugger) : Bool :=
  d.machine.phase == .idle && d.breakpoints.contains d.counter

/-- one instruction of a continuous run -/
def tick (d : Debugger) : Debugger :=
  if !d.running then d
  else if !d.machine.isRunning then
    { d with running := false, status := .stoppedAfter d.machine.ticks }
  else
    let d := d.step
    if d.running && d.atBreakpoint then
      { d with running := false, status := .breakpoint d.counter }
    else d

/-- carries a run on by at most so many instructions; gives the number of calls of `tick` -/
def carryOn : Nat → Nat → Debugger → Nat × Debugger
  | 0, calls, d => (calls, d)
  | limit + 1, calls, d => if d.running then carryOn limit (calls + 1) d.tick else (calls, d)

/-- runs for at most so many instructions -/
def go (limit : Nat) (d : Debugger) : Nat × Debugger := carryOn limit 0 d.run

def addBreakpoint (d : Debugger) (w : Word) : Debugger :=
  { d with breakpoints := insertBreakpoint w d.breakpoints }

/-- at the program counter -/
def toggleBreakpoint (d : Debugger) : Debugger :=
  if d.breakpoints.contains d.counter then
    { d with
      breakpoints := d.breakpoints.filter (· ≠ d.counter)
      status := .breakpointRemoved d.counter }
  else { d.addBreakpoint d.counter with status := .breakpointSet d.counter }

/-- stops the machine, from outside or because it is given up -/
def halt (d : Debugger) : Debugger := (d.lend fun m => (m.halt, ())).1

def clearOutput (d : Debugger) : Debugger := { d with log := d.log.clear }

/-- starts over; the log is cleared first, and the old machine still has it when it is given up -/
def reset (d : Debugger) : Debugger :=
  let fresh := boot d.image d.memorySize
  let d := d.clearOutput.halt
  { d with machine := fresh, running := false, status := .reset }

def setRegister (d : Debugger) (r : Register) (w : Word) : Debugger :=
  { d with machine := d.machine.setRegister r w }

def poke (d : Debugger) (address value : Word) : Except MemoryError Debugger :=
  (d.machine.poke address value).map fun machine => { d with machine }

def scrollTo (d : Debugger) (cell : Nat) : Debugger := { d with scroll := cell }

/-- the last printed lines -/
def output (d : Debugger) (count : Nat) : List String := d.log.lines count

/-- the row for an address, if both its cells are there -/
def row? (d : Debugger) (address : Word) : Option ListingRow := do
  let opcode ← (d.machine.memory.read address).toOption
  let operand ← (d.machine.memory.read (← address.plus? 1)).toOption
  return ⟨address, Instruction.text ⟨opcode, operand⟩, address = d.counter⟩

/-- half of so many rows, in units -/
def half (count : Nat) : Word := BitVec.ofNat 16 (count / 2) * 2

/-- how far the program counter is behind the grid of the body -/
def offGrid (d : Debugger) : Word := .ofInt 16 ((d.counter - Image.bodyStart).toInt % 2)

/-- the address of the first row: half of the rows before the program counter, on the grid of the
body, and not before it -/
def firstRow (d : Debugger) (count : Nat) : Word :=
  let start := d.counter - d.offGrid - half count
  if start.toInt < Image.bodyStart.toInt then Image.bodyStart else start

/-- the row that many rows behind the first one -/
def rowAt? (d : Debugger) (count index : Nat) : Option ListingRow :=
  (Word.plus? (d.firstRow count) (BitVec.ofNat 16 index * 2)).bind d.row?

/-- up to `count` instructions around the program counter, with addresses and the number of rows in
words, which wrap -/
def listing (d : Debugger) (count : Nat) : List ListingRow :=
  (List.range (BitVec.ofNat 16 count).toInt.toNat).filterMap (d.rowAt? count)

end Debugger
end OneBus
