import OneBus.Microprogram

/-!
The instruction set. An opcode's number is its place in `all`, and a word that is no such place
stands for no opcode. `compare`, `jumpZero` and `jumpCarry` are decoded but leave no trace: nothing
writes the flags.
-/

namespace OneBus

/-- a move has two different ends -/
structure Move where
  source : GeneralRegister
  target : GeneralRegister
  distinct : source ≠ target
  deriving DecidableEq

inductive Opcode
  | move (ends : Move)
  | load (r : GeneralRegister)
  | loadImmediate (r : GeneralRegister)
  | store (r : GeneralRegister)
  | storeImmediate
  | add | sum | subtract | difference | compare
  | jump | jumpZero | jumpCarry
  | input | output | halt
  deriving DecidableEq

namespace Opcode

def move? (source target : GeneralRegister) : Option Opcode :=
  if h : source ≠ target then some (.move ⟨source, target, h⟩) else none

def all : List Opcode :=
  GeneralRegister.all.flatMap (fun s => GeneralRegister.all.filterMap (move? s))
    ++ GeneralRegister.all.map load
    ++ GeneralRegister.all.map loadImmediate
    ++ GeneralRegister.all.map store
    ++ [storeImmediate, add, sum, subtract, difference, compare,
        jump, jumpZero, jumpCarry, input, output, halt]

def number (op : Opcode) : Nat := all.idxOf op

def id (op : Opcode) : Word := BitVec.ofNat 16 op.number

def ofId? (w : Word) : Option Opcode := w.index?.bind (all[·]?)

def name : Opcode → String
  | move m => "Move" ++ m.source.name ++ m.target.name
  | load r => "Load" ++ r.name
  | loadImmediate r => "Load" ++ r.name ++ "Immediate"
  | store r => "Store" ++ r.name
  | storeImmediate => "StoreImmediate"
  | add => "Add"
  | sum => "Sum"
  | subtract => "Subtract"
  | difference => "Difference"
  | compare => "Compare"
  | jump => "Jump"
  | jumpZero => "JumpZero"
  | jumpCarry => "JumpCarry"
  | input => "In"
  | output => "Out"
  | halt => "Halt"

def microprogram : Opcode → Microprogram
  | move m => .ofSignals [.driving m.source, .latching m.target]
  | load r => .ofSignals [.instructionOut, .addressIn] [.memoryOut, .latching r]
  | loadImmediate r => .ofSignals [.instructionOut, .memoryIn] [.memoryOut, .latching r]
  | store r => .ofSignals [.instructionOut, .addressIn] [.driving r, .memoryIn]
  | storeImmediate => .ofSignals [.instructionOut, .memoryIn]
  | add =>
    .ofSignals [.instructionOut, .addressIn] [.memoryOut, .bIn] [.aluEnable, .accumulatorIn]
  | sum => .ofSignals [.memoryOut, .bIn] [.aluEnable, .accumulatorIn]
  | subtract =>
    .ofSignals [.instructionOut, .addressIn] [.memoryOut, .bIn]
      [.aluEnable, .accumulatorIn, .subtract]
  | difference => .ofSignals [.memoryOut, .bIn] [.aluEnable, .accumulatorIn, .subtract]
  | compare =>
    .ofSignals [.instructionOut, .addressIn] [.memoryOut, .instructionOut]
      [.aluEnable, .subtract, .flagsIn]
  | jump => .ofSignals [.instructionOut, .programCounterIn]
  | jumpZero | jumpCarry => .ofSignals []
  | input => .ofSignals [.peripheralOut, .ioIn]
  | output => .ofSignals [.ioOut, .peripheralIn]
  | halt => .ofSignals [.halt]

/-- whether the operand of the instruction reaches the bus -/
def takesOperand (op : Opcode) : Bool := op.microprogram.words.any (·.contains .instructionOut)

theorem mem_all (op : Opcode) : op ∈ all := by
  cases op with
  | move m =>
    rcases m with ⟨s, t, h⟩
    simp only [all, List.mem_append, List.mem_flatMap, List.mem_filterMap]
    exact .inl <| .inl <| .inl <| .inl
      ⟨s, s.mem_all, t, t.mem_all, by simp [move?, h]⟩
  | load r => cases r <;> decide
  | loadImmediate r => cases r <;> decide
  | store r => cases r <;> decide
  | _ => decide

theorem ofId?_id (op : Opcode) : ofId? op.id = some op := by
  have h : ∀ o ∈ all, ofId? o.id = some o := by decide
  exact h op op.mem_all

end Opcode
end OneBus
