import OneBus.Debugger.Basic
import OneBus.Screen

/-!
What the debugger shows: the program around the counter, the machine and the status on the left, and
on the right the control queue, the memory, the output and the keys. The left column has 55 of 100
parts of the width; the listing and the memory take the height that the other panes leave.
-/

namespace OneBus.Debugger

open Text

/-- a number right-aligned to six places -/
def six (n : Int) : String := padLeft 6 (decimal n)

def listingRow (d : Debugger) (r : ListingRow) : Row :=
  let marked := d.breakpoints.contains r.address
  let text := (if marked then "●" else " ") ++ " " ++ (if r.isCurrent then "▶ " else "  ")
    ++ zeroDecimal 4 r.address.toInt ++ ": " ++ r.text
  let style : Style :=
    if r.isCurrent then { colour := some .yellow, bold := true }
    else if marked then .of .red
    else {}
  .of style text

def listingPane (d : Debugger) (height : Nat) : Pane :=
  { title := " Disassembly ", border := .of .cyan
    rows := (d.listing (height - 2)).map d.listingRow }

def registerCells (d : Debugger) (r : Register) : Strip :=
  let w := d.machine.registers.get r
  let colour : Colour :=
    if r = .programCounter then .yellow else if w = 0 then .darkGray else .white
  plain (padLeft 4 r.shortName ++ ": ") ++ styled (.of colour) (six w.toInt) ++ plain "   "

def conditionColour : Condition → Colour
  | .running => .green
  | .halted => .yellow
  | .faulted => .red

def machinePane (d : Debugger) : Pane :=
  let m := d.machine
  let registers (rs : List Register) : Row := { cells := rs.flatMap d.registerCells }
  let fact (before : String) (colour : Colour) (value after : String) : Row :=
    { cells := plain before ++ styled (.of colour) value ++ plain after }
  { title := " Machine ", border := .of .green
    rows :=
      [registers [.programCounter, .instruction, .address],
       registers [.a, .b, .accumulator],
       registers [.io, .addressBackup, .flags],
       fact " BUS: " .cyan (six m.lastBus.toInt) ("   ALU: " ++ m.operation.name),
       fact "Ticks: " .cyan (decimal m.ticks) ("   Instructions: " ++ decimal m.instructions),
       fact "State: " (conditionColour m.condition) m.condition.name
         ("   Sequencer: " ++ m.phase.name)] }

def statusPane (d : Debugger) : Pane :=
  { title := " Status ", base := .of .white, rows := [{ cells := plain d.status.text }] }

def queuePane (d : Debugger) (height : Nat) : Pane :=
  let row (w : ControlWord) (index : Nat) : Row :=
    .of (if index = 0 then .of .yellow else {}) w.text
  { title := " Control queue ", border := .of .blue
    rows := (d.machine.queue.take (height - 2)).zipIdx.map fun (w, i) => row w i }

def memoryRow (d : Debugger) (cell : Nat × Word) : Row :=
  let (index, w) := cell
  let digits := hex w.toNat
  let text := zeroDecimal 4 index ++ ": " ++ six w.toInt ++ "  " ++ zeros 4 digits
  let style : Style :=
    if BitVec.ofNat 16 index = d.counter then { colour := some .yellow, bold := true }
    else if w = 0 then .of .darkGray
    else .of .white
  .of style text

def memoryPane (d : Debugger) (height : Nat) : Pane :=
  { title := " Memory ", border := .of .magenta
    rows := (d.machine.memory.dump d.scroll (height - 2)).map d.memoryRow }

/-- the most lines of output that are ever shown -/
def outputLines : Nat := 64

def outputPane (d : Debugger) (height : Nat) : Pane :=
  { title := " Display "
    rows := (d.output (min (height - 2) outputLines)).map fun s => { cells := plain s } }

def helpPane : Pane :=
  { title := " Help ", base := .of .darkGray
    rows :=
      [{ cells := plain "t: Tick  s: Step  r: Run  p: Pause  b: Breakpoint" },
       { cells := plain "x: Reset  ↑↓: Scroll memory  q: Quit" }] }

/-- for a height of at least 25 and a width of which 55 of 100 parts are whole cells -/
def draw (d : Debugger) (width height : Nat) : Screen :=
  let left := width * 55 / 100
  let right := width - left
  let listed := height - 12
  let remembered := height - 19
  Screen.beside
    (Screen.above
      [(d.listingPane listed).render left listed,
       d.machinePane.render left 9,
       d.statusPane.render left 3])
    (Screen.above
      [(d.queuePane 9).render right 9,
       (d.memoryPane remembered).render right remembered,
       (d.outputPane 6).render right 6,
       helpPane.render right 4])

end OneBus.Debugger
