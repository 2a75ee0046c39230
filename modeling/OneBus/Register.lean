import OneBus.Word

/-!
The nine registers and the bank that holds them. Five of them are general: only those can be named
by a move, a load or a store. `B` also selects the port of an input, `address` that of an output.
-/

namespace OneBus

inductive Register
  | instruction | programCounter | accumulator | address | addressBackup | a | b | io | flags
  deriving DecidableEq

namespace Register

/-- in the order of the bank -/
def all : List Register :=
  [instruction, programCounter, accumulator, address, addressBackup, a, b, io, flags]

def shortName : Register → String
  | instruction => "INS"
  | programCounter => "PC"
  | accumulator => "ACC"
  | address => "ADR"
  | addressBackup => "ABK"
  | a => "A"
  | b => "B"
  | io => "IO"
  | flags => "FLG"

theorem mem_all (r : Register) : r ∈ all := by cases r <;> decide

end Register

inductive GeneralRegister
  | a | b | accumulator | address | io
  deriving DecidableEq

namespace GeneralRegister

def all : List GeneralRegister := [a, b, accumulator, address, io]

def register : GeneralRegister → Register
  | a => .a
  | b => .b
  | accumulator => .accumulator
  | address => .address
  | io => .io

def ofRegister? : Register → Option GeneralRegister
  | .a => some a
  | .b => some b
  | .accumulator => some accumulator
  | .address => some address
  | .io => some io
  | _ => none

/-- the part of an opcode's name that stands for the register -/
def name : GeneralRegister → String
  | a => "A"
  | b => "B"
  | accumulator => "Accumulator"
  | address => "Address"
  | io => "Io"

theorem mem_all (r : GeneralRegister) : r ∈ all := by cases r <;> decide

theorem ofRegister?_eq_some_iff {r : Register} {g : GeneralRegister} :
    ofRegister? r = some g ↔ r = g.register := by
  cases r <;> cases g <;> decide

end GeneralRegister

structure RegisterBank where
  instruction : Word := 0
  programCounter : Word := 0
  accumulator : Word := 0
  address : Word := 0
  addressBackup : Word := 0
  a : Word := 0
  b : Word := 0
  io : Word := 0
  flags : Word := 0
  deriving DecidableEq

namespace RegisterBank

def get (bank : RegisterBank) : Register → Word
  | .instruction => bank.instruction
  | .programCounter => bank.programCounter
  | .accumulator => bank.accumulator
  | .address => bank.address
  | .addressBackup => bank.addressBackup
  | .a => bank.a
  | .b => bank.b
  | .io => bank.io
  | .flags => bank.flags

def set (bank : RegisterBank) (r : Register) (w : Word) : RegisterBank :=
  match r with
  | .instruction => { bank with instruction := w }
  | .programCounter => { bank with programCounter := w }
  | .accumulator => { bank with accumulator := w }
  | .address => { bank with address := w }
  | .addressBackup => { bank with addressBackup := w }
  | .a => { bank with a := w }
  | .b => { bank with b := w }
  | .io => { bank with io := w }
  | .flags => { bank with flags := w }

/-- adds one; the largest word goes on to the smallest -/
def increment (bank : RegisterBank) (r : Register) : RegisterBank := bank.set r (bank.get r + 1)

def toList (bank : RegisterBank) : List Word := Register.all.map bank.get

theorem get_set (bank : RegisterBank) (r s : Register) (w : Word) :
    (bank.set r w).get s = if s = r then w else bank.get s := by
  cases r <;> cases s <;> rfl

theorem ext_get {x y : RegisterBank} (h : ∀ r, x.get r = y.get r) : x = y := by
  have := h .instruction; have := h .programCounter; have := h .accumulator; have := h .address
  have := h .addressBackup; have := h .a; have := h .b; have := h .io; have := h .flags
  cases x; cases y; simp_all [get]

end RegisterBank
end OneBus
