import OneBus.Assembly.Statement
import OneBus.Image

/-!
The first pass over a source: statements are kept in order, and a label takes the address of the
next instruction. Addresses count modulo 2^16.
-/

namespace OneBus.Assembly

/-- label names with their addresses, latest first -/
abbrev Symbols := List (String × Word)

structure Layout where
  next : Word := Image.bodyStart
  symbols : Symbols := []
  statements : Array Statement := #[]

namespace Layout

def add (l : Layout) : Item → Except Cause Layout
  | .blank => .ok l
  | .label name =>
    if (l.symbols.lookup name).isSome then .error (.duplicateLabel name)
    else .ok { l with symbols := (name, l.next) :: l.symbols }
  | .statement s =>
    .ok { l with
      next := l.next + BitVec.ofNat 16 (Image.unitsPerInstruction * s.words)
      statements := l.statements.push s }

def addLine [Build] (l : Layout) (line : Line) : Except AssemblyError Layout :=
  (line.item >>= l.add).mapError (⟨line.number, ·⟩)

def ofLines [Build] (lines : List Line) : Except AssemblyError Layout := lines.foldlM addLine {}

end Layout
end OneBus.Assembly
