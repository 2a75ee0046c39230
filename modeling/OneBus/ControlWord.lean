import OneBus.Signal

/-!
A control word: the set of lines that are asserted in one tick, kept as 32 bits. Bits 27 to 31 name
no line, yet a word with one of them set is not empty and takes its tick.
-/

namespace OneBus

structure ControlWord where
  bits : BitVec 32
  deriving DecidableEq

namespace ControlWord

def empty : ControlWord := ⟨0⟩

def contains (w : ControlWord) (s : Signal) : Bool := w.bits.getLsbD s.index

def insert (w : ControlWord) (s : Signal) : ControlWord := ⟨w.bits ||| BitVec.twoPow 32 s.index⟩

def ofList (signals : List Signal) : ControlWord := signals.foldl insert empty

def toList (w : ControlWord) : List Signal := Signal.all.filter w.contains

def isEmpty (w : ControlWord) : Bool := w.bits == 0

/-- latches `A` or `B`, which the arithmetic unit follows -/
def loadsAlu (w : ControlWord) : Bool := w.contains .aIn || w.contains .bIn

def text (w : ControlWord) : String :=
  "[" ++ String.intercalate " " (w.toList.map Signal.name) ++ "]"

def setText (w : ControlWord) : String :=
  "\x7b" ++ String.intercalate ", " (w.toList.map Signal.name) ++ "\x7d"

theorem contains_empty (s : Signal) : empty.contains s = false := by simp [contains, empty]

theorem contains_insert (w : ControlWord) (s t : Signal) :
    (w.insert s).contains t = (w.contains t || decide (t = s)) := by
  have ht := t.index_lt
  have inj : t.index = s.index ↔ t = s := by
    constructor
    · intro h
      have := t.all_index
      rw [h, s.all_index] at this
      simpa using this.symm
    · rintro rfl; rfl
  have hlt : t.index < 32 := by omega
  simp [contains, insert, hlt, ← inj, eq_comm]

theorem mem_toList {w : ControlWord} {s : Signal} : s ∈ w.toList ↔ w.contains s := by
  simp [toList, Signal.mem_all]

end ControlWord
end OneBus
