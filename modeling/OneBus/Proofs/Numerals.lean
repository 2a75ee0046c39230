import OneBus.Assembly.Numeral
import OneBus.Text.Number

/-!
Numbers that have been printed are read back: decimal numbers as numerals, hexadecimal ones as
addresses. No printed number starts with a radix mark, since a mark has a letter behind its zero,
and none holds a sign behind the first place.
-/

namespace OneBus.Text

theorem digitChar_plain {b d : Nat} (small : b ≤ 16) (h : d < b) :
    digit? b d.digitChar = some d ∧ d.digitChar ≠ '+' ∧ d.digitChar ≠ '-' := by
  have all : ∀ b ≤ 16, ∀ d < b,
      digit? b d.digitChar = some d ∧ d.digitChar ≠ '+' ∧ d.digitChar ≠ '-' := by decide
  exact all b small d h

theorem mem_toDigits {b : Nat} (base : 1 < b) (n : Nat) {c : Char} (h : c ∈ Nat.toDigits b n) :
    ∃ d < b, c = d.digitChar := by
  induction n using Nat.strongRecOn with
  | ind n ih =>
    by_cases small : n < b
    · rw [Nat.toDigits_of_lt_base small, List.mem_singleton] at h
      exact ⟨n, small, h⟩
    · rw [Nat.toDigits_of_base_le base (by omega), List.mem_append, List.mem_singleton] at h
      obtain h | h := h
      · exact ih (n / b) (Nat.div_lt_self (by omega) base) h
      · exact ⟨n % b, Nat.mod_lt n (by omega), h⟩

theorem mem_decimal {n : Int} {c : Char} (h : c ∈ (decimal n).toList) :
    c = '-' ∨ ∃ d < 10, c = d.digitChar := by
  rw [toList_decimal, List.mem_append] at h
  obtain h | h := h
  · split at h
    · exact .inl (List.mem_singleton.1 h)
    · contradiction
  · exact .inr (mem_toDigits (by decide) _ h)

theorem digits?_of_ne_nil (b : Nat) {cs : List Char} (some : cs ≠ []) :
    digits? b cs = (cs.mapM (digit? b)).map (·.foldl (fun n d => b * n + d) 0) := by
  cases cs with
  | nil => contradiction
  | cons c cs => rfl

theorem digits?_append {b n d : Nat} {cs : List Char} {c : Char} (front : digits? b cs = some n)
    (last : digit? b c = some d) : digits? b (cs ++ [c]) = some (b * n + d) := by
  have some : cs ≠ [] := by
    rintro rfl
    cases front
  rw [digits?_of_ne_nil b some, Option.map_eq_some_iff] at front
  obtain ⟨ds, read, rfl⟩ := front
  rw [digits?_of_ne_nil b (List.append_ne_nil_of_left_ne_nil some _), List.mapM_append, read]
  simp [last]

theorem digits?_toDigits {b : Nat} (base : 1 < b) (small : b ≤ 16) (n : Nat) :
    digits? b (Nat.toDigits b n) = some n := by
  induction n using Nat.strongRecOn with
  | ind n ih =>
    by_cases single : n < b
    · rw [Nat.toDigits_of_lt_base single]
      simp [digits?, (digitChar_plain small single).1]
    · have last := (digitChar_plain small (Nat.mod_lt n (by omega : 0 < b))).1
      rw [Nat.toDigits_of_base_le base (by omega),
        digits?_append (ih (n / b) (Nat.div_lt_self (by omega) base)) last, Nat.div_add_mod]

theorem natural?_toDigits {b : Nat} (base : 1 < b) (small : b ≤ 16) (n : Nat) :
    natural? b (Nat.toDigits b n) = some n := by
  have digits := digits?_toDigits base small n
  unfold natural?
  split
  · next cs eq =>
    obtain ⟨d, below, plus⟩ := mem_toDigits base n (eq ▸ List.mem_cons_self)
    exact absurd plus.symm (digitChar_plain small below).2.1
  · exact digits

theorem integer?_toDigits {b : Nat} (base : 1 < b) (small : b ≤ 16) (n : Nat) :
    integer? b (Nat.toDigits b n) = some (n : Int) := by
  unfold integer?
  split
  · next cs eq =>
    obtain ⟨d, below, minus⟩ := mem_toDigits base n (eq ▸ List.mem_cons_self)
    exact absurd minus.symm (digitChar_plain small below).2.2
  · rw [natural?_toDigits base small]
    rfl

end OneBus.Text

namespace OneBus.Assembly

open Text

theorem radix_toDigits (n : Nat) : radix (Nat.toDigits 10 n) = (10, Nat.toDigits 10 n) := by
  have digit {c : Char} (h : c ∈ Nat.toDigits 10 n) : ∃ d < 10, c = d.digitChar :=
    mem_toDigits (by decide) n h
  generalize Nat.toDigits 10 n = cs at digit
  unfold radix
  split
  · next mark rest =>
    obtain ⟨d, below, rfl⟩ := digit (List.mem_cons_of_mem _ List.mem_cons_self)
    have none : ∀ d < 10, d.digitChar.toLower ≠ 'd' ∧ d.digitChar.toLower ≠ 'x' ∧
        d.digitChar.toLower ≠ 'b' ∧ d.digitChar.toLower ≠ 'o' := by decide
    obtain ⟨noD, noX, noB, noO⟩ := none d below
    split <;> first | contradiction | rfl
  · rfl

theorem magnitude?_toDigits {n : Nat} (fits : n < 0x8000000000000000) :
    magnitude? (Nat.toDigits 10 n) = some (n : Int) := by
  rw [magnitude?, radix_toDigits]
  dsimp only
  rw [integer?_toDigits (by decide) (by decide)]
  have long : fitsLong n = true := by
    simp only [fitsLong, Bool.and_eq_true, decide_eq_true_eq]
    omega
  simp [long]

theorem fitsLong_iff {k : Int} :
    fitsLong k ↔ -0x8000000000000000 ≤ k ∧ k < 0x8000000000000000 := by
  simp [fitsLong]

theorem negate_of_fits [Build] {n : Int} (fits : fitsLong (-n)) : negate n = .number (-n) :=
  if_pos fits

theorem readNumeral_decimal [Build] {n : Int} (fits : n.natAbs < 0x8000000000000000) :
    readNumeral (decimal n).toList = .number n := by
  have value := magnitude?_toDigits fits
  rw [toList_decimal]
  by_cases negative : n < 0
  · rw [if_pos negative, List.singleton_append]
    have behind (cs : List Char) :
        readNumeral ('-' :: cs) = (magnitude? cs).elim .refused negate := rfl
    rw [behind, value, Option.elim_some, negate_of_fits (fitsLong_iff.2 (by omega))]
    exact congrArg Reading.number (by omega)
  · rw [if_neg negative, List.nil_append]
    unfold readNumeral
    split
    · next cs eq =>
      obtain ⟨d, below, minus⟩ := mem_toDigits (by decide) _ (eq ▸ List.mem_cons_self)
      exact absurd minus.symm (digitChar_plain (by decide) below).2.2
    · rw [value, Int.natAbs_of_nonneg (by omega)]
      rfl

theorem address?_hex {n : Nat} (fits : n < UInt32.size) : address? (hex n).toList = some n := by
  rw [address?, hex, String.toList_ofList, natural?_toDigits (by decide) (by decide)]
  simp [fits]

end OneBus.Assembly
