import OneBus.ControlWord
import OneBus.Alu

/-!
Microprograms: up to three control words that carry out one instruction. Empty words only fill up
and take no tick. The sign of the arithmetic unit is fixed for the whole program: it subtracts when
the word right behind a load of `A` or `B` asks for it.
-/

namespace OneBus

structure Microprogram where
  first : ControlWord := .empty
  second : ControlWord := .empty
  third : ControlWord := .empty
  deriving DecidableEq

namespace Microprogram

def slots (p : Microprogram) : List ControlWord := [p.first, p.second, p.third]

/-- the words that take a tick -/
def words (p : Microprogram) : List ControlWord := p.slots.filter (!·.isEmpty)

/-- some word asks to subtract right behind a load of `A` or `B` -/
def subtracts : List ControlWord → Bool
  | x :: y :: rest => x.loadsAlu && y.contains .subtract || subtracts (y :: rest)
  | _ => false

def operation (p : Microprogram) : Operation :=
  if subtracts p.words then .subtract else .add

def ofSignals (first : List Signal) (second third : List Signal := []) : Microprogram :=
  ⟨.ofList first, .ofList second, .ofList third⟩

end Microprogram

/-- keeps `Address` in its backup, reads opcode and operand at the program counter and moves it on,
then gives `Address` back; the opcode is decoded in the third tick -/
def fetch : List ControlWord :=
  [[.addressOut, .addressBackupIn],
   [.programCounterOut, .addressIn],
   [.memoryOut, .instructionIn, .programCounterIncrement],
   [.programCounterOut, .addressIn],
   [.memoryOut, .instructionParamIn, .programCounterIncrement],
   [.addressBackupOut, .addressIn]].map ControlWord.ofList

theorem fetch_length : fetch.length = 6 := rfl

end OneBus
