import OneBus.Register

/-!
The control lines. An `…Out` line drives the bus, an `…In` line latches it; the two instruction
latches differ in that only `instructionIn` decodes. The order of `all` is the order in which the
lines of one word take effect, and the position of a line there is its bit in the word.
-/

namespace OneBus

inductive Signal
  | instructionIn | instructionParamIn | instructionOut
  | programCounterIn | programCounterOut | programCounterIncrement
  | accumulatorIn | accumulatorOut
  | addressIn | addressOut | addressBackupIn | addressBackupOut
  | aIn | aOut | bIn | bOut | ioIn | ioOut | flagsIn | flagsOut
  | memoryIn | memoryOut
  | aluEnable | subtract
  | peripheralIn | peripheralOut
  | halt
  deriving DecidableEq

namespace Signal

def all : List Signal :=
  [instructionIn, instructionParamIn, instructionOut,
   programCounterIn, programCounterOut, programCounterIncrement,
   accumulatorIn, accumulatorOut,
   addressIn, addressOut, addressBackupIn, addressBackupOut,
   aIn, aOut, bIn, bOut, ioIn, ioOut, flagsIn, flagsOut,
   memoryIn, memoryOut, aluEnable, subtract, peripheralIn, peripheralOut, halt]

def index (s : Signal) : Nat := s.ctorIdx

theorem mem_all (s : Signal) : s ∈ all := by cases s <;> decide

theorem all_index (s : Signal) : all[s.index]? = some s := by cases s <;> rfl

theorem index_lt (s : Signal) : s.index < 27 := by cases s <;> decide

def name : Signal → String
  | instructionIn => "InstructionIn"
  | instructionParamIn => "InstructionParamIn"
  | instructionOut => "InstructionOut"
  | programCounterIn => "ProgramCounterIn"
  | programCounterOut => "ProgramCounterOut"
  | programCounterIncrement => "ProgramCounterIncrement"
  | accumulatorIn => "AccumulatorIn"
  | accumulatorOut => "AccumulatorOut"
  | addressIn => "AddressIn"
  | addressOut => "AddressOut"
  | addressBackupIn => "AddressBackupIn"
  | addressBackupOut => "AddressBackupOut"
  | aIn => "AIn"
  | aOut => "AOut"
  | bIn => "BIn"
  | bOut => "BOut"
  | ioIn => "IoIn"
  | ioOut => "IoOut"
  | flagsIn => "FlagsIn"
  | flagsOut => "FlagsOut"
  | memoryIn => "MemoryIn"
  | memoryOut => "MemoryOut"
  | aluEnable => "AluEnable"
  | subtract => "Subtract"
  | peripheralIn => "PeripheralIn"
  | peripheralOut => "PeripheralOut"
  | halt => "Halt"

/-- the register that the line puts on the bus -/
def drives : Signal → Option Register
  | instructionOut => some .instruction
  | programCounterOut => some .programCounter
  | accumulatorOut => some .accumulator
  | addressOut => some .address
  | addressBackupOut => some .addressBackup
  | aOut => some .a
  | bOut => some .b
  | ioOut => some .io
  | flagsOut => some .flags
  | _ => none

/-- the register that takes the bus; `flagsIn` is wired to none -/
def latches : Signal → Option Register
  | instructionIn | instructionParamIn => some .instruction
  | programCounterIn => some .programCounter
  | accumulatorIn => some .accumulator
  | addressIn => some .address
  | addressBackupIn => some .addressBackup
  | aIn => some .a
  | bIn => some .b
  | ioIn => some .io
  | _ => none

def isDriver (s : Signal) : Bool :=
  s.drives.isSome || s ∈ [memoryOut, aluEnable, peripheralOut]

def isLatch (s : Signal) : Bool :=
  s.latches.isSome || s ∈ [flagsIn, memoryIn, peripheralIn]

/-- the line that drives a general register -/
def driving : GeneralRegister → Signal
  | .a => aOut
  | .b => bOut
  | .accumulator => accumulatorOut
  | .address => addressOut
  | .io => ioOut

/-- the line that latches a general register -/
def latching : GeneralRegister → Signal
  | .a => aIn
  | .b => bIn
  | .accumulator => accumulatorIn
  | .address => addressIn
  | .io => ioIn

theorem drives_driving (r : GeneralRegister) : (driving r).drives = some r.register := by
  cases r <;> rfl

theorem latches_latching (r : GeneralRegister) : (latching r).latches = some r.register := by
  cases r <;> rfl

end Signal
end OneBus
