/-!
The 16-bit word: what a memory cell, a register and the bus hold. `toInt` is its signed reading,
`toNat` its unsigned one. In a byte stream the low byte comes first.
-/

namespace OneBus

abbrev Word := BitVec 16

namespace Word

def low (w : Word) : UInt8 := UInt8.ofNat w.toNat

def high (w : Word) : UInt8 := UInt8.ofNat (w.toNat / 256)

def bytes (w : Word) : List UInt8 := [low w, high w]

def ofBytes (low high : UInt8) : Word := BitVec.ofNat 16 (low.toNat + 256 * high.toNat)

theorem ofBytes_low_high (w : Word) : ofBytes (low w) (high w) = w := by
  apply BitVec.eq_of_toNat_eq
  have := w.isLt
  simp only [ofBytes, low, high, BitVec.toNat_ofNat, UInt8.toNat_ofNat']
  omega

theorem low_ofBytes (l h : UInt8) : low (ofBytes l h) = l := by
  apply UInt8.toNat.inj
  have := l.toNat_lt
  have := h.toNat_lt
  simp only [ofBytes, low, BitVec.toNat_ofNat, UInt8.toNat_ofNat']
  omega

theorem high_ofBytes (l h : UInt8) : high (ofBytes l h) = h := by
  apply UInt8.toNat.inj
  have := l.toNat_lt
  have := h.toNat_lt
  simp only [ofBytes, high, BitVec.toNat_ofNat, UInt8.toNat_ofNat']
  omega

/-- the place that a word selects in a row of cells or ports: negative words select none -/
def index? (w : Word) : Option Nat := if w.toInt < 0 then none else some w.toNat

/-- the sum, if it is a word -/
def plus? (v w : Word) : Option Word := if v.saddOverflow w then none else some (v + w)

theorem index?_eq_some_iff {w : Word} {i : Nat} :
    index? w = some i ↔ 0 ≤ w.toInt ∧ w.toNat = i := by
  unfold index?
  split <;> simp <;> omega

theorem eq_of_index? {v w : Word} {i : Nat} (hv : index? v = some i)
    (hw : index? w = some i) : v = w :=
  BitVec.eq_of_toNat_eq <|
    (index?_eq_some_iff.1 hv).2.trans (index?_eq_some_iff.1 hw).2.symm

end Word
end OneBus
