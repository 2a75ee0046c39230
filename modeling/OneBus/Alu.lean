import OneBus.Word

/-!
The arithmetic unit: two operands, taken when `A` or `B` latches, and a sum or a difference of them
modulo 2^16. The sign belongs to the instruction that runs, not to the unit.
-/

namespace OneBus

inductive Operation
  | add | subtract
  deriving DecidableEq

namespace Operation

def name : Operation → String
  | add => "Add"
  | subtract => "Subtract"

def apply : Operation → Word → Word → Word
  | add, x, y => x + y
  | subtract, x, y => x - y

end Operation

structure Alu where
  a : Word := 0
  b : Word := 0
  deriving DecidableEq

def Alu.result (alu : Alu) (operation : Operation) : Word := operation.apply alu.a alu.b

end OneBus
