import OneBus.Image

/-!
Main memory: a row of words. An address is the signed reading of a word; a negative one, or one
behind the last cell, is refused and never wraps. Sizes are given in bytes, two to a cell, and an
odd byte is left out.
-/

namespace OneBus

structure Memory where
  cells : Array Word := #[]
  deriving DecidableEq

structure MemoryError where
  address : Word
  cells : Nat
  deriving DecidableEq

def MemoryError.message (e : MemoryError) : String :=
  "memory address " ++ Text.decimal e.address.toInt ++ " out of range (0-"
    ++ Text.decimal (e.cells - 1 : Nat) ++ ")"

namespace Memory

def zero (size : Nat) : Memory := ⟨Array.replicate (size / 2) 0⟩

def length (m : Memory) : Nat := m.cells.size

/-- in bytes -/
def size (m : Memory) : Nat := 2 * m.length

def cell? (m : Memory) (address : Word) : Option Nat := address.index?.filter (· < m.length)

def read (m : Memory) (address : Word) : Except MemoryError Word :=
  match address.index?.bind (m.cells[·]?) with
  | some w => .ok w
  | none => .error ⟨address, m.length⟩

def write (m : Memory) (address value : Word) : Except MemoryError Memory :=
  match m.cell? address with
  | some i => .ok ⟨m.cells.setIfInBounds i value⟩
  | none => .error ⟨address, m.length⟩

def bytes (m : Memory) : List UInt8 := m.cells.toList.flatMap Word.bytes

/-- replaces every cell: bytes behind the end are dropped, cells behind the bytes become 0 -/
def load (m : Memory) (bytes : List UInt8) : Memory :=
  let ws := (Word.ofByteList bytes).take m.length
  ⟨(ws ++ List.replicate (m.length - ws.length) 0).toArray⟩

/-- at most `count` cells from `start` on, with their places -/
def dump (m : Memory) (start count : Nat) : List (Nat × Word) :=
  ((m.cells.toList.drop start).take count).zipIdx start |>.map fun (w, i) => (i, w)

def nonZero (m : Memory) : Nat := (m.cells.toList.filter (· ≠ 0)).length

def text (m : Memory) : String :=
  "Memory \x7b non_zero_cells: " ++ Text.decimal m.nonZero ++ ", total_cells: "
    ++ Text.decimal m.length ++ " \x7d"

theorem cell?_eq_some_iff {m : Memory} {a : Word} {i : Nat} :
    m.cell? a = some i ↔ Word.index? a = some i ∧ i < m.length := by
  simp [cell?, Option.filter_eq_some_iff]

theorem length_zero (size : Nat) : (zero size).length = size / 2 := by simp [zero, length]

theorem length_write {m n : Memory} {a v : Word} (h : m.write a v = .ok n) :
    n.length = m.length := by
  unfold write at h
  split at h
  · cases h; simp [length]
  · cases h

/-- writing changes the one cell -/
theorem read_write {m n : Memory} {a v : Word} (h : m.write a v = .ok n) (b : Word) :
    n.read b = if b = a then .ok v else m.read b := by
  unfold write at h
  split at h
  · next i cell =>
    obtain ⟨place, bound⟩ := cell?_eq_some_iff.1 cell
    cases h
    by_cases same : b = a
    · simp [same, read, place, show i < m.cells.size from bound]
    · rw [if_neg same]
      have apart : ∀ j, Word.index? b = some j → i ≠ j := fun j hj eq =>
        same (Word.eq_of_index? hj (eq ▸ place))
      unfold read
      cases hb : Word.index? b with
      | none => simp [length]
      | some j => simp [Array.getElem?_setIfInBounds_ne (apart j hb), length]
  · cases h

theorem length_load (m : Memory) (bytes : List UInt8) : (m.load bytes).length = m.length := by
  unfold load length
  rw [List.size_toArray, List.length_append, List.length_take, List.length_replicate]
  omega

end Memory
end OneBus
