import Mathlib.Data.Nat.Digits.Defs
import OneBus.Assembly.Operand
import OneBus.Proofs.Failing
import OneBus.Proofs.Numerals

/-!
Which tokens are numbers. `Numeral` is the written form: a minus sign if wanted, a radix mark if
wanted, digits of the radix. The reader takes every token of that form for what it denotes, but it
also takes a sign right in front of the digits, behind the minus sign and the mark: `Resigned`,
which no written form has. A minus sign in front of the least number of 64 bits, which only the
second form comes to, wraps around, or stops a program that is built with checks. An address may in
the same way have a plus sign in front of its digits. Digits are told by how they are printed, and
their value is the positional one. Main statement: `numbers_read`, over all tokens.
-/

namespace OneBus.Assembly

open Text

/-- a character that is printed for a digit, in either case -/
def IsDigit (b : Nat) (c : Char) (d : Nat) : Prop := d < b ∧ c.toLower = d.digitChar

/-- digits of a radix, at least one, and their value -/
def Digits (b : Nat) (cs : List Char) (n : Nat) : Prop :=
  ∃ ds, ds ≠ [] ∧ List.Forall₂ (IsDigit b) cs ds ∧ n = Nat.ofDigits b ds.reverse

def markLetters : List (Char × Nat) := [('d', 10), ('x', 16), ('b', 2), ('o', 8)]

/-- a mark in front of a number, and the radix that it sets -/
inductive Mark : List Char → Nat → Prop
  | none : Mark [] 10
  | letter {c : Char} {b : Nat} (known : (c.toLower, b) ∈ markLetters) : Mark ['0', c] b

/-- a number without signs that fits into 64 bits -/
def Plain (cs : List Char) (k : Int) : Prop :=
  ∃ mark b ds, ∃ n : Nat, Mark mark b ∧ cs = mark ++ ds ∧ Digits b ds n ∧ n < 2 ^ 63 ∧ k = n

/-- a number with a sign behind its mark that fits into 64 bits, sign included -/
def SignedInside (cs : List Char) (k : Int) : Prop :=
  ∃ mark b sign ds, ∃ n : Nat, Mark mark b ∧ cs = mark ++ sign :: ds ∧ Digits b ds n ∧
    (sign = '+' ∧ k = n ∨ sign = '-' ∧ k = -(n : Int)) ∧ fitsLong k

/-- a numeral as it is to be written, and what it denotes -/
inductive Numeral (token : Token) : Int → Prop
  | plain {k : Int} (number : Plain token k) : Numeral token k
  | minus {cs : List Char} {k : Int} (text : token = '-' :: cs) (number : Plain cs k) :
    Numeral token (-k)

/-- the least number of 64 bits, which has no negation there -/
def least : Int := -0x8000000000000000

/-- a token with one sign too many for a numeral, and what it is read as -/
inductive Resigned [Build] (token : Token) : Int → Prop
  | plain {k : Int} (first : token.head? ≠ some '-') (number : SignedInside token k) :
    Resigned token k
  | minus {cs : List Char} {k : Int} (text : token = '-' :: cs) (number : SignedInside cs k)
    (fits : fitsLong (-k)) : Resigned token (-k)
  | wrapped {cs : List Char} (text : token = '-' :: cs) (number : SignedInside cs least)
    (unchecked : ¬ Build.checked) : Resigned token least

/-- a token that stops a program built with checks -/
def Overflows [Build] (token : Token) : Prop :=
  Build.checked ∧ ∃ cs, token = '-' :: cs ∧ SignedInside cs least

section digits

theorem toNat_toLower (c : Char) :
    c.toLower.toNat = if 65 ≤ c.toNat ∧ c.toNat ≤ 90 then c.toNat + 32 else c.toNat := by
  unfold Char.toLower
  split
  case isTrue h =>
    have range : 65 ≤ c.toNat ∧ c.toNat ≤ 90 := h
    rw [if_pos range]
    change (c.val + 32).toNat = c.val.toNat + 32
    have small : c.val.toNat ≤ 90 := range.2
    rw [UInt32.toNat_add]
    simp only [UInt32.toNat_ofNat]
    omega
  case isFalse h =>
    have range : ¬ (65 ≤ c.toNat ∧ c.toNat ≤ 90) := h
    rw [if_neg range]

theorem toNat_digitChar {d : Nat} (small : d < 16) :
    d.digitChar.toNat = if d < 10 then 48 + d else 87 + d := by
  have all : ∀ d < 16, d.digitChar.toNat = if d < 10 then 48 + d else 87 + d := by decide
  exact all d small

/-- the three ranges of characters that digits are among -/
theorem digit?_eq_some_iff_code {b : Nat} {c : Char} {d : Nat} :
    digit? b c = some d ↔ d < b ∧
      (48 ≤ c.toNat ∧ c.toNat ≤ 57 ∧ d = c.toNat - 48 ∨
        97 ≤ c.toNat ∧ c.toNat ≤ 122 ∧ d = c.toNat - 87 ∨
        65 ≤ c.toNat ∧ c.toNat ≤ 90 ∧ d = c.toNat - 55) := by
  have le (x y : Char) : x ≤ y ↔ x.toNat ≤ y.toNat := Iff.rfl
  have zero : '0'.toNat = 48 := rfl
  have nine : '9'.toNat = 57 := rfl
  have lower : 'a'.toNat = 97 := rfl
  have lowerEnd : 'z'.toNat = 122 := rfl
  have upper : 'A'.toNat = 65 := rfl
  have upperEnd : 'Z'.toNat = 90 := rfl
  simp only [digit?, le, Option.filter_eq_some_iff, decide_eq_true_eq, zero, nine, lower, lowerEnd,
    upper, upperEnd]
  rw [and_comm]
  apply and_congr_right
  intro below
  split
  · rw [Option.some.injEq]
    omega
  split
  · rw [Option.some.injEq]
    omega
  split
  · rw [Option.some.injEq]
    omega
  · simp only [reduceCtorEq, false_iff]
    omega

theorem digit?_eq_some_iff {b : Nat} (small : b ≤ 16) {c : Char} {d : Nat} :
    digit? b c = some d ↔ IsDigit b c d := by
  rw [digit?_eq_some_iff_code, IsDigit, ← Char.toNat_inj]
  apply and_congr_right
  intro below
  rw [toNat_toLower, toNat_digitChar (by omega)]
  split <;> split <;> omega

theorem digits?_eq_some_iff {b : Nat} (small : b ≤ 16) {cs : List Char} {n : Nat} :
    digits? b cs = some n ↔ Digits b cs n := by
  have value (ds : List Nat) :
      ds.foldl (fun n d => b * n + d) 0 = Nat.ofDigits b ds.reverse := by
    rw [Nat.ofDigits_eq_foldr, List.foldr_reverse]
    simp only [Nat.cast_id, Nat.add_comm]
  cases cs with
  | nil =>
    simp only [digits?, reduceCtorEq, false_iff]
    rintro ⟨ds, some, digits, -⟩
    exact some (List.forall₂_nil_left_iff.1 digits)
  | cons c cs =>
    rw [digits?_of_ne_nil b (List.cons_ne_nil c cs)]
    simp only [Option.map_eq_some_iff, mapM_eq_some_iff, digit?_eq_some_iff small, value]
    constructor
    · rintro ⟨ds, digits, rfl⟩
      refine ⟨ds, ?_, digits, rfl⟩
      rintro rfl
      cases digits
    · rintro ⟨ds, -, digits, rfl⟩
      exact ⟨ds, digits, rfl⟩

theorem Digits.ne_sign {b : Nat} (small : b ≤ 16) {cs : List Char} {n : Nat}
    (digits : Digits b cs n) : ∀ c ∈ cs, c ≠ '+' ∧ c ≠ '-' := by
  obtain ⟨ds, -, digits, -⟩ := digits
  induction digits with
  | nil => simp
  | cons first _ ih =>
    refine List.forall_mem_cons.2 ⟨?_, ih⟩
    obtain ⟨below, printed⟩ := first
    obtain ⟨-, plus, minus⟩ := digitChar_plain small below
    constructor
    · rintro rfl
      exact plus printed.symm
    · rintro rfl
      exact minus printed.symm

theorem natural?_eq_some_iff {b : Nat} (small : b ≤ 16) {cs : List Char} {n : Nat} :
    natural? b cs = some n ↔ Digits b cs n ∨ ∃ ds, cs = '+' :: ds ∧ Digits b ds n := by
  unfold natural?
  split
  case h_1 ds =>
    rw [digits?_eq_some_iff small]
    constructor
    · exact fun digits => .inr ⟨ds, rfl, digits⟩
    · rintro (digits | ⟨_, same, digits⟩)
      · exact absurd rfl (digits.ne_sign small '+' List.mem_cons_self).1
      · cases same
        exact digits
  case h_2 unsigned =>
    rw [digits?_eq_some_iff small, or_iff_left]
    rintro ⟨ds, same, -⟩
    exact unsigned ds same

theorem integer?_minus (b : Nat) (ds : List Char) :
    integer? b ('-' :: ds) = (digits? b ds).map fun n : Nat => -(n : Int) := by
  change Option.map _ (digits? b ds >>= fun n => pure (n : Int)) = _
  cases digits? b ds <;> rfl

theorem integer?_of_head (b : Nat) {cs : List Char} (first : cs.head? ≠ some '-') :
    integer? b cs = (natural? b cs).map Int.ofNat := by
  unfold integer?
  split
  case h_1 => exact absurd rfl first
  case h_2 => rfl

theorem integer?_eq_some_iff {b : Nat} (small : b ≤ 16) {cs : List Char} {k : Int} :
    integer? b cs = some k ↔ (∃ n : Nat, Digits b cs n ∧ k = n) ∨
      ∃ sign ds, ∃ n : Nat, cs = sign :: ds ∧ Digits b ds n ∧
        (sign = '+' ∧ k = n ∨ sign = '-' ∧ k = -(n : Int)) := by
  by_cases first : cs.head? = some '-'
  · obtain ⟨ds, rfl⟩ := List.head?_eq_some_iff.1 first
    simp only [integer?_minus, Option.map_eq_some_iff, digits?_eq_some_iff small]
    constructor
    · rintro ⟨n, digits, rfl⟩
      exact .inr ⟨'-', ds, n, rfl, digits, .inr ⟨rfl, rfl⟩⟩
    · rintro (⟨n, digits, -⟩ | ⟨sign, _, n, same, digits, rest⟩)
      · exact absurd rfl (digits.ne_sign small '-' List.mem_cons_self).2
      · cases same
        rcases rest with ⟨plus, -⟩ | ⟨-, rfl⟩
        · cases plus
        · exact ⟨n, digits, rfl⟩
  · simp only [integer?_of_head b first, Option.map_eq_some_iff, natural?_eq_some_iff small]
    constructor
    · rintro ⟨n, digits | ⟨ds, rfl, digits⟩, rfl⟩
      · exact .inl ⟨n, digits, rfl⟩
      · exact .inr ⟨'+', ds, n, rfl, digits, .inl ⟨rfl, rfl⟩⟩
    · rintro (⟨n, digits, rfl⟩ | ⟨sign, ds, n, rfl, digits, ⟨rfl, rfl⟩ | ⟨rfl, rfl⟩⟩)
      · exact ⟨n, .inl digits, rfl⟩
      · exact ⟨n, .inr ⟨ds, rfl, digits⟩, rfl⟩
      · exact absurd rfl first

end digits

section marks

theorem Mark.le {mark : List Char} {b : Nat} (marked : Mark mark b) : b ≤ 16 := by
  cases marked with
  | none => decide
  | letter known =>
    have all : ∀ entry ∈ markLetters, entry.2 ≤ 16 := by decide
    exact all _ known

theorem Mark.ne_sign {mark : List Char} {b : Nat} (marked : Mark mark b) :
    ∀ c ∈ mark, c ≠ '+' ∧ c ≠ '-' := by
  cases marked with
  | none => simp
  | letter known =>
    have all : ∀ entry ∈ markLetters, entry.1 ≠ '+' ∧ entry.1 ≠ '-' := by decide
    have letter := all _ known
    simp only [List.forall_mem_cons, List.not_mem_nil, false_imp_iff, implies_true, and_true]
    refine ⟨by decide, ?_, ?_⟩
    · rintro rfl
      exact letter.1 rfl
    · rintro rfl
      exact letter.2 rfl

theorem radix_letter {c : Char} {b : Nat} (known : (c.toLower, b) ∈ markLetters)
    (rest : List Char) : radix ('0' :: c :: rest) = (b, rest) := by
  simp only [markLetters, List.mem_cons, Prod.mk.injEq, List.not_mem_nil, or_false] at known
  rcases known with ⟨letter, rfl⟩ | ⟨letter, rfl⟩ | ⟨letter, rfl⟩ | ⟨letter, rfl⟩ <;>
    simp only [radix, letter]

theorem radix_unmarked {cs : List Char}
    (unmarked : ∀ c rest, cs = '0' :: c :: rest → ∀ b, (c.toLower, b) ∉ markLetters) :
    radix cs = (10, cs) := by
  unfold radix
  split
  case h_1 c rest =>
    have letter := unmarked c rest rfl
    simp only [markLetters, List.mem_cons, Prod.mk.injEq, List.not_mem_nil, or_false] at letter
    split
    case h_1 same => exact absurd (.inl ⟨same, rfl⟩) (letter 10)
    case h_2 same => exact absurd (.inr (.inl ⟨same, rfl⟩)) (letter 16)
    case h_3 same => exact absurd (.inr (.inr (.inl ⟨same, rfl⟩))) (letter 2)
    case h_4 same => exact absurd (.inr (.inr (.inr ⟨same, rfl⟩))) (letter 8)
    case h_5 => rfl
  case h_2 => rfl

theorem exists_mark (cs : List Char) :
    ∃ mark, Mark mark (radix cs).1 ∧ cs = mark ++ (radix cs).2 := by
  by_cases marked : ∃ c rest b, cs = '0' :: c :: rest ∧ (c.toLower, b) ∈ markLetters
  · obtain ⟨c, rest, b, rfl, known⟩ := marked
    rw [radix_letter known]
    exact ⟨_, .letter known, rfl⟩
  · rw [radix_unmarked fun c rest same b known => marked ⟨c, rest, b, same, known⟩]
    exact ⟨[], .none, rfl⟩

/-- no digit is a letter of a mark, so a number is not taken for a mark -/
theorem radix_of_integer? {cs : List Char} {k : Int} (number : integer? 10 cs = some k) :
    radix cs = (10, cs) := by
  apply radix_unmarked
  rintro c rest rfl b known
  change (digits? 10 ('0' :: c :: rest)).map Int.ofNat = some k at number
  obtain ⟨n, digits, -⟩ := Option.map_eq_some_iff.1 number
  obtain ⟨ds, -, digits, -⟩ := (digits?_eq_some_iff (by decide)).1 digits
  cases digits with
  | cons _ digits =>
    cases digits with
    | cons digit _ =>
      obtain ⟨below, printed⟩ := digit
      have all : ∀ d < 10, ∀ entry ∈ markLetters, entry.1 ≠ d.digitChar := by decide
      exact all _ below _ known printed

theorem Mark.radix_append {mark : List Char} {b : Nat} (marked : Mark mark b) {rest : List Char}
    {k : Int} (number : integer? b rest = some k) : radix (mark ++ rest) = (b, rest) := by
  cases marked with
  | none => exact radix_of_integer? number
  | letter known => exact radix_letter known rest

end marks

theorem magnitude?_eq_some_iff {cs : List Char} {k : Int} :
    magnitude? cs = some k ↔ Plain cs k ∨ SignedInside cs k := by
  simp only [magnitude?, Option.filter_eq_some_iff]
  constructor
  · rintro ⟨number, fits⟩
    obtain ⟨mark, marked, text⟩ := exists_mark cs
    rcases (integer?_eq_some_iff marked.le).1 number with
      ⟨n, digits, rfl⟩ | ⟨sign, ds, n, rest, digits, signed⟩
    · have small := (fitsLong_iff.1 fits).2
      exact .inl ⟨mark, _, _, n, marked, text, digits, by omega, rfl⟩
    · rw [rest] at text
      exact .inr ⟨mark, _, sign, ds, n, marked, text, digits, signed, fits⟩
  · rintro (⟨mark, b, ds, n, marked, rfl, digits, small, rfl⟩ |
      ⟨mark, b, sign, ds, n, marked, rfl, digits, signed, fits⟩)
    · have number := (integer?_eq_some_iff marked.le).2 (.inl ⟨n, digits, rfl⟩)
      rw [marked.radix_append number]
      exact ⟨number, fitsLong_iff.2 ⟨by omega, by omega⟩⟩
    · have number := (integer?_eq_some_iff marked.le).2 (.inr ⟨sign, ds, n, rfl, digits, signed⟩)
      rw [marked.radix_append number]
      exact ⟨number, fits⟩

theorem Plain.ne_sign {cs : List Char} {k : Int} (number : Plain cs k) :
    ∀ c ∈ cs, c ≠ '+' ∧ c ≠ '-' := by
  obtain ⟨mark, b, ds, n, marked, rfl, digits, -⟩ := number
  intro c mem
  rcases List.mem_append.1 mem with mem | mem
  · exact marked.ne_sign c mem
  · exact digits.ne_sign marked.le c mem

theorem SignedInside.exists_sign {cs : List Char} {k : Int} (number : SignedInside cs k) :
    ∃ c ∈ cs, c = '+' ∨ c = '-' := by
  obtain ⟨mark, b, sign, ds, n, -, rfl, -, signed, -⟩ := number
  exact ⟨sign, by simp, signed.imp And.left And.left⟩

theorem Plain.fits_neg {cs : List Char} {k : Int} (number : Plain cs k) : fitsLong (-k) := by
  obtain ⟨mark, b, ds, n, -, -, -, small, rfl⟩ := number
  exact fitsLong_iff.2 (by omega)

theorem SignedInside.fits {cs : List Char} {k : Int} (number : SignedInside cs k) :
    fitsLong k := by
  obtain ⟨mark, b, sign, ds, n, -, -, -, -, fits⟩ := number
  exact fits

section

variable [Build]

theorem negate_of_not_fits {k : Int} (inside : fitsLong k) (wide : ¬ fitsLong (-k)) :
    k = least ∧ negate k = if Build.checked then .overflow else .number least := by
  rw [fitsLong_iff] at inside wide
  have known : k = least := by
    unfold least
    omega
  subst known
  exact ⟨rfl, if_neg (by decide)⟩

theorem negate_eq_number_iff {k v : Int} (inside : fitsLong k) :
    negate k = .number v ↔
      fitsLong (-k) ∧ v = -k ∨ k = least ∧ v = least ∧ ¬ Build.checked := by
  by_cases fits : fitsLong (-k)
  · have other : k ≠ least := by
      rintro rfl
      exact absurd fits (by decide)
    simp only [negate_of_fits fits, Reading.number.injEq, fits, other, true_and, false_and,
      or_false]
    exact eq_comm
  · obtain ⟨rfl, value⟩ := negate_of_not_fits inside fits
    rw [value]
    cases Build.checked <;> simp [fits, eq_comm]

theorem readNumeral_minus (cs : List Char) :
    readNumeral ('-' :: cs) = (magnitude? cs).elim .refused negate := rfl

theorem readNumeral_of_head {token : Token} (first : token.head? ≠ some '-') :
    readNumeral token = (magnitude? token).elim .refused .number := by
  unfold readNumeral
  split
  · exact absurd rfl first
  · rfl

theorem readNumeral_minus_eq_number_iff {cs : List Char} {v : Int} :
    readNumeral ('-' :: cs) = .number v ↔
      Numeral ('-' :: cs) v ∨ Resigned ('-' :: cs) v := by
  have read : readNumeral ('-' :: cs) = .number v ↔
      ∃ k, magnitude? cs = some k ∧ negate k = .number v := by
    rw [readNumeral_minus]
    cases magnitude? cs <;> simp
  simp only [read, magnitude?_eq_some_iff]
  constructor
  · rintro ⟨k, number | number, value⟩
    · rw [negate_of_fits number.fits_neg] at value
      cases value
      exact .inl (.minus rfl number)
    · rcases (negate_eq_number_iff number.fits).1 value with ⟨fits, rfl⟩ | ⟨rfl, rfl, unchecked⟩
      · exact .inr (.minus rfl number fits)
      · exact .inr (.wrapped rfl number unchecked)
  · rintro (numeral | resigned)
    · cases numeral with
      | plain number => exact absurd rfl (number.ne_sign '-' List.mem_cons_self).2
      | minus text number =>
        cases text
        exact ⟨_, .inl number, negate_of_fits number.fits_neg⟩
    · cases resigned with
      | plain first number => exact absurd rfl first
      | minus text number fits =>
        cases text
        exact ⟨_, .inr number, negate_of_fits fits⟩
      | wrapped text number unchecked =>
        cases text
        exact ⟨_, .inr number, (negate_eq_number_iff number.fits).2 (.inr ⟨rfl, rfl, unchecked⟩)⟩

theorem readNumeral_eq_number_iff {token : Token} {v : Int} :
    readNumeral token = .number v ↔ Numeral token v ∨ Resigned token v := by
  by_cases minus : token.head? = some '-'
  · obtain ⟨cs, rfl⟩ := List.head?_eq_some_iff.1 minus
    exact readNumeral_minus_eq_number_iff
  · have read : readNumeral token = .number v ↔ magnitude? token = some v := by
      rw [readNumeral_of_head minus]
      cases magnitude? token <;> simp
    rw [read, magnitude?_eq_some_iff]
    constructor
    · rintro (number | number)
      · exact .inl (.plain number)
      · exact .inr (.plain minus number)
    · rintro (numeral | resigned)
      · cases numeral with
        | plain number => exact .inl number
        | minus text _ => exact absurd (by rw [text]; rfl) minus
      · cases resigned with
        | plain _ number => exact .inr number
        | minus text _ _ => exact absurd (by rw [text]; rfl) minus
        | wrapped text _ _ => exact absurd (by rw [text]; rfl) minus

theorem readNumeral_eq_overflow_iff {token : Token} :
    readNumeral token = .overflow ↔ Overflows token := by
  by_cases minus : token.head? = some '-'
  · obtain ⟨cs, rfl⟩ := List.head?_eq_some_iff.1 minus
    have read : readNumeral ('-' :: cs) = .overflow ↔
        ∃ k, magnitude? cs = some k ∧ negate k = .overflow := by
      rw [readNumeral_minus]
      cases magnitude? cs <;> simp
    simp only [read, magnitude?_eq_some_iff]
    constructor
    · rintro ⟨k, number | number, stops⟩
      · cases (negate_of_fits number.fits_neg).symm.trans stops
      · by_cases fits : fitsLong (-k)
        · cases (negate_of_fits fits).symm.trans stops
        · obtain ⟨rfl, value⟩ := negate_of_not_fits number.fits fits
          refine ⟨?_, cs, rfl, number⟩
          by_contra unchecked
          rw [value, if_neg unchecked] at stops
          cases stops
    · rintro ⟨checked, _, text, number⟩
      cases text
      refine ⟨least, .inr number, ?_⟩
      rw [(negate_of_not_fits number.fits (by decide)).2, if_pos checked]
  · have read : readNumeral token ≠ .overflow := by
      rw [readNumeral_of_head minus]
      cases magnitude? token <;> simp
    refine iff_of_false read ?_
    rintro ⟨-, cs, rfl, -⟩
    exact minus rfl

theorem Resigned.exists_sign {token : Token} {v : Int} (resigned : Resigned token v) :
    token.head? ≠ some '-' ∧ SignedInside token v ∨
      ∃ cs k, token = '-' :: cs ∧ SignedInside cs k := by
  cases resigned with
  | plain first number => exact .inl ⟨first, number⟩
  | minus text number _ => exact .inr ⟨_, _, text, number⟩
  | wrapped text number _ => exact .inr ⟨_, _, text, number⟩

theorem Numeral.not_resigned {token : Token} {v w : Int} (numeral : Numeral token v) :
    ¬ Resigned token w := by
  intro resigned
  have apart {cs : List Char} {k l : Int} (number : Plain cs k) : ¬ SignedInside cs l := by
    intro other
    obtain ⟨c, mem, sign⟩ := other.exists_sign
    exact sign.elim (number.ne_sign c mem).1 (number.ne_sign c mem).2
  cases numeral with
  | plain number =>
    rcases resigned.exists_sign with ⟨-, other⟩ | ⟨cs, k, rfl, -⟩
    · exact apart number other
    · exact (number.ne_sign '-' List.mem_cons_self).2 rfl
  | minus text number =>
    subst text
    rcases resigned.exists_sign with ⟨first, -⟩ | ⟨cs, k, text, other⟩
    · exact first rfl
    · cases text
      exact apart number other

theorem fits_of_number {token : Token} {v : Int} (read : readNumeral token = .number v) :
    fitsLong v := by
  rcases readNumeral_eq_number_iff.1 read with numeral | resigned
  · cases numeral with
    | plain number =>
      obtain ⟨mark, b, ds, n, -, -, -, small, rfl⟩ := number
      exact fitsLong_iff.2 (by omega)
    | minus _ number => exact number.fits_neg
  · cases resigned with
    | plain _ number => exact number.fits
    | minus _ _ fits => exact fits
    | wrapped _ number _ => exact number.fits

theorem ofToken_percent_iff {cs : List Char} {o : Operand} :
    Operand.ofToken ('%' :: cs) = .ok o ↔
      ∃ n ≤ 0xffff, o = .address (.ofNat 16 n) ∧
        (Digits 16 cs n ∨ ∃ ds, cs = '+' :: ds ∧ Digits 16 ds n) := by
  simp only [← natural?_eq_some_iff (b := 16) (by decide)]
  simp only [Operand.ofToken]
  constructor
  · intro read
    split at read
    case h_1 n value =>
      obtain ⟨number, -⟩ := Option.filter_eq_some_iff.1 value
      split at read
      case isTrue small =>
        cases read
        exact ⟨n, Nat.le_of_lt_succ small, rfl, number⟩
      case isFalse => cases read
    case h_2 => cases read
  · rintro ⟨n, small, rfl, number⟩
    have value : address? cs = some n :=
      Option.filter_eq_some_iff.2 ⟨number, decide_eq_true (by change n < 4294967296; omega)⟩
    rw [value]
    exact if_pos (Nat.lt_succ_of_le small)

/-- what is read as a numeral, always of 64 bits, and what as an address: the written forms, and
besides them the forms with a sign right in front of the digits; only a minus sign in front of the
least number may stop the program -/
theorem numbers_read (token : Token) :
    (∀ v, readNumeral token = .number v ↔ Numeral token v ∨ Resigned token v) ∧
    (∀ v, readNumeral token = .number v → fitsLong v) ∧
    (readNumeral token = .overflow ↔ Overflows token) ∧
    ¬ ((∃ v, Numeral token v) ∧ ∃ v, Resigned token v) ∧
    ∀ o, Operand.ofToken ('%' :: token) = .ok o ↔
      ∃ n ≤ 0xffff, o = .address (.ofNat 16 n) ∧
        (Digits 16 token n ∨ ∃ ds, token = '+' :: ds ∧ Digits 16 ds n) := by
  refine ⟨fun v => readNumeral_eq_number_iff, fun v => fits_of_number,
    readNumeral_eq_overflow_iff, ?_, fun o => ofToken_percent_iff⟩
  rintro ⟨⟨v, numeral⟩, w, resigned⟩
  exact numeral.not_resigned resigned

end

/-- a second minus sign takes the first one back, but not where it wraps around, and a plus sign is
lost; none of it is written so -/
theorem second_sign_read :
    readNumeral "--5".toList = .number 5 ∧ readNumeral "0x-1f".toList = .number (-0x1f) ∧
    readNumeral "--9223372036854775808".toList = .number least ∧
    (∀ v, ¬ Numeral "--5".toList v ∧ ¬ Numeral "0x-1f".toList v) ∧
    Operand.ofToken "%+1f".toList = .ok (.address 0x1f) ∧ ∀ n, ¬ Digits 16 "+1f".toList n := by
  have five : Digits 10 ['5'] 5 := (digits?_eq_some_iff (by decide)).1 (by decide)
  have hex : Digits 16 ['1', 'f'] 0x1f := (digits?_eq_some_iff (by decide)).1 (by decide)
  have twice : Resigned ['-', '-', '5'] (- -5) :=
    .minus rfl ⟨[], 10, '-', ['5'], 5, .none, rfl, five, .inr ⟨rfl, rfl⟩, by decide⟩ (by decide)
  have behind : Resigned ['0', 'x', '-', '1', 'f'] (-0x1f) :=
    .plain (by decide)
      ⟨['0', 'x'], 16, '-', ['1', 'f'], 0x1f, .letter (by decide), rfl, hex, .inr ⟨rfl, rfl⟩,
        by decide⟩
  refine ⟨by decide, by decide, by decide, fun v => ⟨?_, ?_⟩, by decide, fun n digits => ?_⟩
  · exact fun numeral => numeral.not_resigned twice
  · exact fun numeral => numeral.not_resigned behind
  · exact (digits.ne_sign (by decide) '+' List.mem_cons_self).1 rfl

end OneBus.Assembly
