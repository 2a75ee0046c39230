import OneBus.Json.Codec

/-!
JSON text that was written is read back. What stands behind a value is nothing, a comma or a closing
bracket, and none of these goes on with a number, so the reader takes exactly the text of the value
in front of it, with any fuel from twice its length on: `Taken`. This goes along the value, and in an
array or an object along its parts. Values without decimals and with texts for strings come back as
they were.
-/

namespace OneBus.Json

/-- what may stand behind a value -/
def Closes (rest : List Char) : Prop := ∀ c ∈ rest.head?, c = ',' ∨ c = ']' ∨ c = '\x7d'

theorem closes_nil : Closes [] := by simp [Closes]

theorem closes_cons {c : Char} (closing : c = ',' ∨ c = ']' ∨ c = '\x7d') (rest : List Char) :
    Closes (c :: rest) := by
  simpa [Closes] using closing

section number

variable {rest : List Char}

theorem digits?_append {ds : List Char} (any : ds ≠ []) (digits : ∀ c ∈ ds, c.isDigit)
    (closes : Closes rest) : digits? (ds ++ rest) = some (ds, rest) := by
  have ends : rest.takeWhile Char.isDigit = [] ∧ rest.dropWhile Char.isDigit = rest := by
    cases rest with
    | nil => exact ⟨rfl, rfl⟩
    | cons c rest =>
      have other : c.isDigit = false := by
        rcases closes c rfl with rfl | rfl | rfl <;> rfl
      simp [other]
  rw [digits?, List.takeWhile_append_of_pos digits, List.dropWhile_append_of_pos digits, ends.1,
    ends.2, List.append_nil]
  simp [any]

theorem fraction?_of_closes (closes : Closes rest) : fraction? rest = some ([], rest) := by
  unfold fraction?
  split
  · next cs => simp [Closes] at closes
  · rfl

theorem exponent?_of_closes (closes : Closes rest) : exponent? rest = some ([], rest) := by
  unfold exponent?
  split
  · next mark cs =>
    have plain : ¬ (mark = 'e' ∨ mark = 'E') := by
      rcases closes mark rfl with rfl | rfl | rfl <;> decide
    rw [if_neg plain]
  · rfl

theorem isDigit_toDigits (n : Nat) : ∀ c ∈ Nat.toDigits 10 n, c.isDigit := fun _ mem =>
  Nat.isDigit_of_mem_toDigits (by decide) (by decide) mem

theorem exists_toDigits (n : Nat) : ∃ c cs, Nat.toDigits 10 n = c :: cs ∧ c.isDigit := by
  obtain ⟨c, cs, eq⟩ := List.exists_cons_of_ne_nil (Nat.toDigits_ne_nil (n := n) (b := 10))
  exact ⟨c, cs, eq, isDigit_toDigits n c (by simp [eq])⟩

theorem eq_zero_of_toDigits {n : Nat} {cs : List Char} (zero : Nat.toDigits 10 n = '0' :: cs) :
    n = 0 := by
  induction n using Nat.strongRecOn generalizing cs with
  | ind n ih =>
    by_cases single : n < 10
    · rw [Nat.toDigits_of_lt_base single] at zero
      have all : ∀ d < 10, d.digitChar = '0' → d = 0 := by decide
      exact all n single (List.cons.inj zero).1
    · rw [Nat.toDigits_of_base_le (by decide) (by omega)] at zero
      obtain ⟨c, ds, eq, -⟩ := exists_toDigits (n / 10)
      rw [eq, List.cons_append] at zero
      obtain ⟨rfl, -⟩ := List.cons.inj zero
      have front : n / 10 = 0 := ih (n / 10) (by omega) eq
      omega

theorem unsigned?_toDigits {sign : List Char} {n : Nat} (apart : sign ≠ [] → n ≠ 0)
    (closes : Closes rest) :
    unsigned? sign (Nat.toDigits 10 n ++ rest) =
      some (.integer (if sign.isEmpty then n else -(n : Int)), rest) := by
  have read : digits? (Nat.toDigits 10 n ++ rest) = some (Nat.toDigits 10 n, rest) :=
    digits?_append Nat.toDigits_ne_nil (isDigit_toDigits n) closes
  have short : ¬ ((Nat.toDigits 10 n).head? = some '0' ∧ (Nat.toDigits 10 n).length > 1) := by
    rintro ⟨zero, long⟩
    obtain ⟨cs, eq⟩ := List.head?_eq_some_iff.1 zero
    rw [eq_zero_of_toDigits eq] at long
    exact absurd long (by decide)
  have signed : ¬ sign = [] → ¬ Nat.toDigits 10 n = ['0'] := fun there zero =>
    apart there (eq_zero_of_toDigits zero)
  have value : Nat.ofDigitChars 10 (Nat.toDigits 10 n) 0 = n :=
    Nat.ofDigitChars_toDigits (by decide) (by decide)
  simpa [unsigned?, read, short, fraction?_of_closes closes, exponent?_of_closes closes, value]
    using signed

theorem number?_decimal (n : Int) (closes : Closes rest) :
    number? ((Text.decimal n).toList ++ rest) = some (.integer n, rest) := by
  rw [Text.toList_decimal]
  by_cases negative : n < 0
  · have behind (cs : List Char) : number? ('-' :: cs) = unsigned? ['-'] cs := rfl
    have value : -(n.natAbs : Int) = n := by omega
    rw [if_pos negative, List.singleton_append, List.cons_append, behind,
      unsigned?_toDigits (fun _ => by omega) closes]
    simp only [List.isEmpty_cons, Bool.false_eq_true, if_false, value]
  · have value : (n.natAbs : Int) = n := by omega
    rw [if_neg negative, List.nil_append]
    unfold number?
    split
    · next cs minus =>
      obtain ⟨c, ds, eq, digit⟩ := exists_toDigits n.natAbs
      rw [eq, List.cons_append] at minus
      obtain ⟨rfl, -⟩ := List.cons.inj minus
      contradiction
    · rw [unsigned?_toDigits (by simp) closes]
      simp only [List.isEmpty_nil, if_true, value]

end number

section string

theorem fourHex?_control {n : Nat} (control : n < 0x20) :
    fourHex? '0' '0' (Nat.digitChar (n / 16)) (Nat.digitChar (n % 16)) = some n := by
  have all : ∀ n < 0x20,
      fourHex? '0' '0' (Nat.digitChar (n / 16)) (Nat.digitChar (n % 16)) = some n := by decide
  exact all n control

theorem joinPieces_control {n : Nat} (control : n < 0x20) (ps : List Piece) :
    joinPieces (.unit n :: ps) = (joinPieces ps).map (Char.ofNat n :: ·) := by
  rw [joinPieces.eq_def]
  dsimp only
  rw [if_neg (by omega), if_neg (by omega)]

/-- what is written for a character is read as one piece of a string -/
theorem exists_piece (c : Char) :
    ∃ p, (∀ done rest, pieces done (escape c ++ rest) = pieces (p :: done) rest) ∧
      ∀ ps, joinPieces (p :: ps) = (joinPieces ps).map (c :: ·) := by
  unfold escape
  split
  · exact ⟨.char '"', fun _ _ => rfl, fun _ => rfl⟩
  · exact ⟨.char '\\', fun _ _ => rfl, fun _ => rfl⟩
  · exact ⟨.char '\x08', fun _ _ => rfl, fun _ => rfl⟩
  · exact ⟨.char '\x0c', fun _ _ => rfl, fun _ => rfl⟩
  · exact ⟨.char '\n', fun _ _ => rfl, fun _ => rfl⟩
  · exact ⟨.char '\r', fun _ _ => rfl, fun _ => rfl⟩
  · exact ⟨.char '\t', fun _ _ => rfl, fun _ => rfl⟩
  · next noQuote noSlash _ _ _ _ _ =>
    split
    · next control =>
      refine ⟨.unit c.toNat, fun done rest => ?_, fun ps => ?_⟩
      · simp only [List.cons_append, List.nil_append]
        rw [pieces, fourHex?_control control]
      · rw [joinPieces_control control, Char.ofNat_toNat]
    · next printed =>
      have plain : ¬ (c.toNat < 0x20 ∨ c = '\\') := not_or.2 ⟨printed, noSlash⟩
      refine ⟨.char c, fun done rest => ?_, fun ps => rfl⟩
      -- the equation for plain characters asks that none of the marks is there
      rw [List.singleton_append, pieces, if_neg plain]
      · exact noQuote
      · rintro a b c d rest rfl
        exact absurd rfl noSlash
      · exact fun _ _ slash => absurd slash noSlash

theorem exists_pieces (cs : List Char) :
    ∃ ps, (∀ done rest, pieces done (cs.flatMap escape ++ '"' :: rest) =
      some (done.reverse ++ ps, rest)) ∧ joinPieces ps = some cs := by
  induction cs with
  | nil => exact ⟨[], fun done rest => by simp [pieces], rfl⟩
  | cons c cs ih =>
    obtain ⟨p, first, join⟩ := exists_piece c
    obtain ⟨ps, others, joined⟩ := ih
    refine ⟨p :: ps, fun done rest => ?_, by rw [join, joined]; rfl⟩
    rw [List.flatMap_cons, List.append_assoc, first, others]
    simp

theorem string?_escaped (s : String) (rest : List Char) :
    string? (s.toList.flatMap escape ++ '"' :: rest) = some (some s, rest) := by
  obtain ⟨ps, read, joined⟩ := exists_pieces s.toList
  simp [string?, read, joined]

theorem toList_quote (s : String) (rest : List Char) :
    (quote s).toList ++ rest = '"' :: (s.toList.flatMap escape ++ '"' :: rest) := by
  simp [quote]

end string

/-- the reader takes the characters for the value, and nothing of what stands behind them -/
def Taken (v : Value) (cs : List Char) : Prop :=
  ∀ fuel rest, 2 * cs.length ≤ fuel → Closes rest → value? fuel (cs ++ rest) = some (v, rest)

theorem skip_of_not_space {c : Char} (dark : isSpace c = false) (cs : List Char) :
    skip (c :: cs) = c :: cs := by
  simp [skip, dark]

theorem not_space_of_number {c : Char} (start : c = '-' ∨ c.isDigit) : isSpace c = false := by
  rcases start with rfl | digit
  · rfl
  · simp only [isSpace, Bool.or_eq_false_iff, beq_eq_false_iff_ne]
    refine ⟨⟨⟨?_, ?_⟩, ?_⟩, ?_⟩ <;> · rintro rfl; contradiction

theorem value?_of_number {c : Char} (start : c = '-' ∨ c.isDigit) (fuel : Nat) (cs : List Char) :
    value? (fuel + 1) (c :: cs) = number? (c :: cs) := by
  rw [value?, skip_of_not_space (not_space_of_number start)]
  split
  case h_7 => rfl
  all_goals
    next eq =>
    obtain ⟨rfl, -⟩ := List.cons.inj eq
    simp at start

theorem exists_decimal (n : Int) :
    ∃ c cs, (Text.decimal n).toList = c :: cs ∧ (c = '-' ∨ c.isDigit) := by
  rw [Text.toList_decimal]
  split
  · exact ⟨'-', _, rfl, .inl rfl⟩
  · obtain ⟨c, cs, eq, digit⟩ := exists_toDigits n.natAbs
    exact ⟨c, cs, eq, .inr digit⟩

theorem taken_integer (n : Int) : Taken (.integer n) (Text.decimal n).toList := by
  intro fuel rest enough closes
  obtain ⟨c, cs, eq, start⟩ := exists_decimal n
  have read := number?_decimal n closes
  rw [eq] at enough read ⊢
  obtain _ | fuel := fuel
  · simp at enough
  · exact (value?_of_number start fuel _).trans read

theorem taken_text (s : String) : Taken (text s) (quote s).toList := by
  intro fuel rest enough closes
  rw [toList_quote]
  obtain _ | fuel := fuel
  · simp [quote] at enough
  · have string (cs : List Char) : value? (fuel + 1) ('"' :: cs) =
        (string? cs).map fun read => (.string read.1, read.2) := rfl
    rw [string, string?_escaped]
    rfl

section parts

variable {fuel : Nat} {cs rest : List Char} {v : Value}

theorem value?_items {c : Char} (dark : isSpace c = false) (there : c ≠ ']') :
    value? (fuel + 1) ('[' :: c :: cs) = items? fuel [] (c :: cs) := by
  rw [value?, skip_of_not_space rfl]
  simp [skip_of_not_space dark, there]

theorem items?_more (done : List Value) (read : value? fuel cs = some (v, ',' :: rest)) :
    items? (fuel + 1) done cs = items? fuel (v :: done) rest := by
  rw [items?, read]
  rfl

theorem items?_last (done : List Value) (read : value? fuel cs = some (v, ']' :: rest)) :
    items? (fuel + 1) done cs = some (.array (v :: done).reverse, rest) := by
  rw [items?, read]
  rfl

variable (name : String) (done : List (Option String × Value))

theorem fields?_more (read : value? fuel cs = some (v, ',' :: rest)) :
    fields? (fuel + 1) done ((quote name).toList ++ ':' :: cs) =
      fields? fuel ((some name, v) :: done) rest := by
  rw [fields?, toList_quote, skip_of_not_space rfl]
  simp only [string?_escaped]
  rw [skip_of_not_space rfl]
  simp only [read]
  rfl

theorem fields?_last (read : value? fuel cs = some (v, '\x7d' :: rest)) :
    fields? (fuel + 1) done ((quote name).toList ++ ':' :: cs) =
      some (.object ((some name, v) :: done).reverse, rest) := by
  rw [fields?, toList_quote, skip_of_not_space rfl]
  simp only [string?_escaped]
  rw [skip_of_not_space rfl]
  simp only [read]
  rfl

end parts

/-- a value that is read back from its text -/
inductive Value.Plain : Value → Prop
  | null : Plain .null
  | bool (b : Bool) : Plain (.bool b)
  | integer (n : Int) : Plain (.integer n)
  | text (s : String) : Plain (Json.text s)
  | array {items : List Value} (plain : ∀ v ∈ items, Plain v) : Plain (.array items)
  | record {fields : List (String × Value)} (plain : ∀ f ∈ fields, Plain f.2) :
    Plain (Json.record fields)

/-- the characters of a value -/
def chars (v : Value) : List Char := (compact v).toList

/-- the characters of a field -/
def fieldChars (f : String × Value) : List Char := (quote f.1).toList ++ ':' :: chars f.2

theorem chars_array (items : List Value) :
    chars (.array items) = '[' :: ([','].intercalate (items.map chars) ++ [']']) := by
  have parts : (compactItems items).map String.toList = items.map chars := by
    induction items with
    | nil => rfl
    | cons v items ih => simp [compactItems, ih, chars]
  simp [chars, compact, String.toList_intercalate, parts]

theorem chars_record (fields : List (String × Value)) :
    chars (record fields) = '\x7b' :: ([','].intercalate (fields.map fieldChars) ++ ['\x7d']) := by
  have parts : (compactFields (fields.map field)).map String.toList = fields.map fieldChars := by
    induction fields with
    | nil => rfl
    | cons f fields ih => simp [compactFields, ih, field, fieldChars, chars, quoteText]
  simp [chars, record, compact, String.toList_intercalate, parts]

/-- no value begins with a blank or with what closes an array -/
theorem Value.Plain.exists_chars {v : Value} (plain : v.Plain) :
    ∃ c cs, chars v = c :: cs ∧ isSpace c = false ∧ c ≠ ']' := by
  cases plain with
  | null => exact ⟨'n', _, rfl, rfl, by decide⟩
  | bool b => cases b <;> exact ⟨_, _, rfl, rfl, by decide⟩
  | integer n =>
    obtain ⟨c, cs, eq, start⟩ := exists_decimal n
    refine ⟨c, cs, eq, not_space_of_number start, ?_⟩
    rintro rfl
    simp at start
  | text s =>
    have quoted := toList_quote s []
    rw [List.append_nil] at quoted
    exact ⟨'"', _, quoted, rfl, by decide⟩
  | array => exact ⟨'[', _, chars_array _, rfl, by decide⟩
  | record => exact ⟨'\x7b', _, chars_record _, rfl, by decide⟩

theorem items?_chars {v : Value} {items : List Value} (taken : ∀ w ∈ v :: items, Taken w (chars w))
    (done : List Value) (fuel : Nat) (rest : List Char)
    (enough : 2 * ([','].intercalate ((v :: items).map chars)).length + 1 ≤ fuel) :
    items? fuel done ([','].intercalate ((v :: items).map chars) ++ ']' :: rest) =
      some (.array (done.reverse ++ v :: items), rest) := by
  induction items generalizing v done fuel with
  | nil =>
    obtain _ | fuel := fuel
    · simp at enough
    rw [List.map_singleton, List.intercalate_singleton] at enough ⊢
    rw [items?_last done
      (taken v List.mem_cons_self fuel _ (by omega) (closes_cons (by decide) rest))]
    simp
  | cons w items ih =>
    obtain _ | fuel := fuel
    · simp at enough
    rw [List.map_cons, List.map_cons, List.intercalate_cons_cons, ← List.map_cons] at enough ⊢
    simp only [List.length_append, List.length_singleton] at enough
    rw [List.append_assoc, List.append_assoc, List.singleton_append, items?_more done
      (taken v List.mem_cons_self fuel _ (by omega) (closes_cons (by decide) _)),
      ih (fun w mem => taken w (List.mem_cons_of_mem _ mem)) (v :: done) fuel (by omega)]
    simp

theorem fields?_chars {f : String × Value} {fields : List (String × Value)}
    (taken : ∀ g ∈ f :: fields, Taken g.2 (chars g.2)) (done : List (Option String × Value))
    (fuel : Nat) (rest : List Char)
    (enough : 2 * ([','].intercalate ((f :: fields).map fieldChars)).length + 1 ≤ fuel) :
    fields? fuel done ([','].intercalate ((f :: fields).map fieldChars) ++ '\x7d' :: rest) =
      some (.object (done.reverse ++ (f :: fields).map field), rest) := by
  induction fields generalizing f done fuel with
  | nil =>
    obtain _ | fuel := fuel
    · simp at enough
    rw [List.map_singleton, List.intercalate_singleton] at enough ⊢
    simp only [fieldChars, List.length_append, List.length_cons] at enough
    rw [fieldChars, List.append_assoc, List.cons_append, fields?_last f.1 done
      (taken f List.mem_cons_self fuel _ (by omega) (closes_cons (by decide) rest))]
    simp [field]
  | cons g fields ih =>
    obtain _ | fuel := fuel
    · simp at enough
    rw [List.map_cons, List.map_cons, List.intercalate_cons_cons, ← List.map_cons] at enough ⊢
    simp only [fieldChars, List.length_append, List.length_cons] at enough
    rw [fieldChars, List.append_assoc, List.append_assoc, List.append_assoc, List.cons_append,
      List.singleton_append, fields?_more f.1 done
      (taken f List.mem_cons_self fuel _ (by omega) (closes_cons (by decide) _)),
      ih (fun g mem => taken g (List.mem_cons_of_mem _ mem)) ((some f.1, f.2) :: done) fuel
        (by omega)]
    simp [field]

theorem Value.Plain.taken {v : Value} (plain : v.Plain) : Taken v (chars v) := by
  induction plain with
  | null =>
    intro fuel rest enough _
    obtain _ | fuel := fuel
    · simp [chars, compact] at enough
    · rfl
  | bool b =>
    intro fuel rest enough _
    obtain _ | fuel := fuel
    · cases b <;> simp [chars, compact] at enough
    · cases b <;> rfl
  | integer n => exact taken_integer n
  | text s => exact taken_text s
  | @array items plain ih =>
    intro fuel rest enough _
    rw [chars_array] at enough ⊢
    obtain _ | fuel := fuel
    · simp at enough
    cases items with
    | nil => rfl
    | cons v items =>
      have read := items?_chars ih [] fuel rest (by simp at enough ⊢; omega)
      obtain ⟨c, cs, eq, dark, there⟩ := (plain v List.mem_cons_self).exists_chars
      rw [List.map_cons, eq, List.intercalate_cons_cons_left] at read ⊢
      rw [List.cons_append, List.append_assoc]
      exact (value?_items dark there).trans read
  | @record fields plain ih =>
    intro fuel rest enough _
    rw [chars_record] at enough ⊢
    obtain _ | fuel := fuel
    · simp at enough
    cases fields with
    | nil => rfl
    | cons f fields =>
      have read := fields?_chars ih [] fuel rest (by simp at enough ⊢; omega)
      rw [List.map_cons, fieldChars, toList_quote, List.intercalate_cons_cons_left] at read ⊢
      rw [List.cons_append, List.append_assoc]
      have opened (cs : List Char) :
          value? (fuel + 1) ('\x7b' :: '"' :: cs) = Json.fields? fuel [] ('"' :: cs) := rfl
      exact (opened _).trans read

theorem parse_compact {v : Value} (plain : v.Plain) : parse (compact v) = some v := by
  have read := plain.taken (2 * (chars v).length + 2) [] (by omega) closes_nil
  rw [List.append_nil, chars] at read
  simp only [parse, read]
  rfl

end Json
end OneBus
