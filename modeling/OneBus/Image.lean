import OneBus.Opcode
import OneBus.Text.Number

/-!
The program image: an entry point and a body of instructions, each an opcode and an operand. In
bytes a marker and the entry point stand in front; they fill the first two address units, so the
first instruction sits at unit 2 and each takes two. Decoding fills a cut last instruction up with
zeros. Main statements: `ofByteList_bytes` and `ofHalves_halves`, reading undoes writing.
-/

namespace OneBus

structure Instruction where
  opcode : Word := 0
  operand : Word := 0
  deriving DecidableEq

namespace Instruction

def of (op : Opcode) (operand : Word := 0) : Instruction := ⟨op.id, operand⟩

def decode? (i : Instruction) : Option Opcode := Opcode.ofId? i.opcode

def halves (i : Instruction) : List Word := [i.opcode, i.operand]

def bytes (i : Instruction) : List UInt8 := i.halves.flatMap Word.bytes

end Instruction

structure Image where
  entry : Word := 0
  body : List Instruction := []
  deriving DecidableEq

inductive ImageError
  | truncated (length : Nat)
  | badMarker (found : Word)
  deriving DecidableEq

namespace ImageError

def message : ImageError → String
  | truncated n =>
    "image too short: " ++ Text.decimal n ++ " bytes, need at least a 4-byte header"
  | badMarker w => "bad format marker " ++ Text.decimal w.toNat ++ " (expected 148)"

end ImageError

namespace Image

def marker : Word := 148

def unitsPerInstruction : Nat := 2

def bytesPerInstruction : Nat := 4

/-- the unit behind the header -/
def bodyStart : Word := 2

/-- where the first fetch reads; an entry point of 0 means that none is set -/
def start (image : Image) : Word := if image.entry = 0 then bodyStart else image.entry

/-- the address unit of an instruction of the body, modulo 2^16 -/
def addressOf (index : Nat) : Word := bodyStart + BitVec.ofNat 16 (unitsPerInstruction * index)

/-- the body without the all-zero instructions at its end -/
def trimmed (image : Image) : List Instruction :=
  (image.body.reverse.dropWhile (· == {})).reverse

def bytes (image : Image) : List UInt8 :=
  marker.bytes ++ image.entry.bytes ++ image.body.flatMap Instruction.bytes

end Image

/-- a list of bytes with zeros behind it, or cut, to a given length -/
def fitBytes (size : Nat) (bytes : List UInt8) : List UInt8 :=
  bytes.take size ++ List.replicate (size - bytes.length) 0

def Image.sizedBytes (image : Image) (size : Nat) : List UInt8 := fitBytes size image.bytes

namespace Word

def collect (done : Array Word) : List UInt8 → Array Word
  | low :: high :: rest => collect (done.push (ofBytes low high)) rest
  | [low] => done.push (ofBytes low 0)
  | [] => done

/-- the words of a byte stream; a single byte at the end is a low byte -/
def ofByteList (bytes : List UInt8) : List Word := (collect #[] bytes).toList

theorem toList_collect : ∀ (bytes : List UInt8) (done : Array Word),
    (collect done bytes).toList = done.toList ++ ofByteList bytes
  | low :: high :: rest, done => by
    have cons : ofByteList (low :: high :: rest) = ofBytes low high :: ofByteList rest := by
      simpa [ofByteList, collect] using toList_collect rest #[ofBytes low high]
    rw [collect, toList_collect rest, cons]
    simp
  | [low], done => by simp [collect, ofByteList]
  | [], done => by simp [collect, ofByteList]

theorem ofByteList_nil : ofByteList [] = [] := rfl

theorem ofByteList_single (l : UInt8) : ofByteList [l] = [ofBytes l 0] := rfl

theorem ofByteList_cons (l h : UInt8) (rest : List UInt8) :
    ofByteList (l :: h :: rest) = ofBytes l h :: ofByteList rest := by
  rw [ofByteList, collect, toList_collect]
  simp

theorem ofByteList_bytes (ws : List Word) : ofByteList (ws.flatMap bytes) = ws := by
  induction ws with
  | nil => rfl
  | cons w ws ih =>
    rw [List.flatMap_cons, bytes, List.cons_append, List.cons_append, List.nil_append,
      ofByteList_cons, ofBytes_low_high, ih]

end Word

namespace Instruction

def collect (done : Array Instruction) : List Word → Array Instruction
  | op :: x :: rest => collect (done.push ⟨op, x⟩) rest
  | [op] => done.push ⟨op, 0⟩
  | [] => done

/-- instructions from their halves; a missing operand is 0 -/
def ofHalves (ws : List Word) : List Instruction := (collect #[] ws).toList

theorem toList_collect : ∀ (ws : List Word) (done : Array Instruction),
    (collect done ws).toList = done.toList ++ ofHalves ws
  | op :: x :: rest, done => by
    have cons : ofHalves (op :: x :: rest) = ⟨op, x⟩ :: ofHalves rest := by
      simpa [ofHalves, collect] using toList_collect rest #[⟨op, x⟩]
    rw [collect, toList_collect rest, cons]
    simp
  | [op], done => by simp [collect, ofHalves]
  | [], done => by simp [collect, ofHalves]

theorem ofHalves_cons (op x : Word) (rest : List Word) :
    ofHalves (op :: x :: rest) = ⟨op, x⟩ :: ofHalves rest := by
  rw [ofHalves, collect, toList_collect]
  simp

theorem ofHalves_halves (is : List Instruction) : ofHalves (is.flatMap halves) = is := by
  induction is with
  | nil => rfl
  | cons i is ih =>
    rw [List.flatMap_cons, halves, List.cons_append, List.cons_append, List.nil_append,
      ofHalves_cons, ih]

end Instruction

/-- reads an image; the two marker bytes are looked at only if a whole header is there -/
def Image.ofBytes (bytes : List UInt8) : Except ImageError Image :=
  match bytes with
  | m₀ :: m₁ :: e₀ :: e₁ :: rest =>
    let found := Word.ofBytes m₀ m₁
    if found = marker then
      .ok ⟨Word.ofBytes e₀ e₁, Instruction.ofHalves (Word.ofByteList rest)⟩
    else .error (.badMarker found)
  | short => .error (.truncated short.length)

end OneBus
