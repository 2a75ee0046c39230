import OneBus.Json.Reader
import OneBus.Word

/-!
Values of a type as JSON and back. Reading is strict: integers in range and written as integers, each
field of a record once and none missing; fields that the record does not have are skipped. A record
may also be given as the array of its field values, and an enumerated value as an object that pairs
its name with null. `decode?_encode` is the law of a codec.
-/

namespace OneBus.Json

class Codec (α : Type) where
  encode : α → Value
  decode? : Value → Option α

export Codec (encode decode?)

/-- reading gives back what was written -/
class LawfulCodec (α : Type) [Codec α] : Prop where
  decode?_encode : ∀ x : α, decode? (encode x) = some x

def write {α : Type} [Codec α] (x : α) : String := compact (encode x)

def read? {α : Type} [Codec α] (text : String) : Option α := parse text >>= decode?

namespace Value

def integer? : Value → Option Int
  | .integer n => some n
  | _ => none

/-- an integer in a half-open range -/
def within? (low high : Int) (v : Value) : Option Int :=
  v.integer?.filter fun n => low ≤ n ∧ n < high

def natural? (limit : Nat) (v : Value) : Option Nat := (v.within? 0 limit).map Int.toNat

def items? : Value → Option (List Value)
  | .array items => some items
  | _ => none

def signedWord? (v : Value) : Option Word := (v.within? (-0x8000) 0x8000).map (BitVec.ofInt 16)

def unsignedWord? (v : Value) : Option Word := (v.natural? UInt16.size).map (BitVec.ofNat 16)

/-- as many items as there are, each read alike -/
def list? {α : Type} (decode? : Value → Option α) (v : Value) : Option (List α) :=
  v.items? >>= List.mapM decode?

/-- one of the named values -/
def named? {α : Type} (name : α → String) (all : List α) (v : Value) : Option α :=
  let find (s : String) := all.find? (name · == s)
  match v with
  | .string (some s) => find s
  | .object [(some s, .null)] => find s
  | _ => none

/-- a field whose name is a text -/
def namedField? (f : Option String × Value) : Option (String × Value) := f.1.map (·, f.2)

/-- puts the fields of an object into the order of `names`; fails at a name that is no text or
comes twice, and, if told to, at one that is not asked for -/
def arrange (strict : Bool) (names : List String) (fields : List (Option String × Value)) :
    Option (List (Option Value)) := do
  let found ← fields.mapM namedField?
  let known := found.filter (names.contains ·.1)
  if strict && known.length != found.length then none
  else if (known.map (·.1)).Nodup then return names.map (List.lookup · known)
  else none

/-- the values of a record's fields, `none` for one that is missing -/
def fields? (strict : Bool) (names : List String) : Value → Option (List (Option Value))
  | .object fields => arrange strict names fields
  | .array items =>
    if items.length ≤ names.length then
      some (items.map some ++ List.replicate (names.length - items.length) none)
    else none
  | _ => none

/-- the values of a record's fields when all are there -/
def allFields? (names : List String) (v : Value) : Option (List Value) :=
  v.fields? false names >>= List.mapM id

/-- a map of a list that nothing goes wrong in -/
theorem mapM_eq_map {α β : Type} {f : α → Option β} {g : α → β} {xs : List α}
    (h : ∀ x ∈ xs, f x = some (g x)) : xs.mapM f = some (xs.map g) := by
  induction xs with
  | nil => rfl
  | cons x xs ih =>
    rw [List.mapM_cons, h x (by simp), ih fun y hy => h y (by simp [hy])]
    rfl

theorem map_lookup {fields : List (String × Value)} (h : (fields.map (·.1)).Nodup) :
    (fields.map (·.1)).map (List.lookup · fields) = fields.map (some ·.2) := by
  rw [List.map_map]
  refine List.map_congr_left fun field mem => ?_
  obtain ⟨front, back, rfl⟩ := List.append_of_mem mem
  refine List.lookup_eq_some_iff.2 ⟨front, back, rfl, fun other before => ?_⟩
  rw [List.map_append, List.nodup_append] at h
  simpa [bne_iff_ne] using (h.2.2 other.1 (List.mem_map_of_mem before) field.1 (by simp)).symm

/-- the fields of a record come back in its own order -/
theorem allFields?_record (fields : List (String × Value)) (h : (fields.map (·.1)).Nodup) :
    (record fields).allFields? (fields.map (·.1)) = some (fields.map (·.2)) := by
  have found : (fields.map field).mapM namedField? = some fields := by
    rw [List.mapM_map]
    exact (mapM_eq_map (g := id) fun _ _ => rfl).trans (by rw [List.map_id])
  have known : fields.filter (fun field => (fields.map (·.1)).contains field.1) = fields :=
    List.filter_eq_self.2 fun field mem => by simpa using ⟨_, mem⟩
  have arranged :
      arrange false (fields.map (·.1)) (fields.map field) = some (fields.map (some ·.2)) := by
    unfold arrange
    rw [found]
    simp only [Option.bind_eq_bind, Option.bind_some, known, h, map_lookup h, Bool.false_and]
    rfl
  change arrange false _ _ >>= List.mapM id = _
  rw [arranged]
  change (fields.map (some ·.2)).mapM id = _
  rw [List.mapM_map]
  exact mapM_eq_map fun _ _ => rfl

/-- a value built from the fields of a record, in the order of `names` -/
def recordOf? {α : Type} (names : List String) (build? : List Value → Option α) (v : Value) :
    Option α := v.allFields? names >>= build?

theorem recordOf?_record {α : Type} (build? : List Value → Option α)
    (fields : List (String × Value)) (h : (fields.map (·.1)).Nodup) :
    recordOf? (fields.map (·.1)) build? (record fields) = build? (fields.map (·.2)) := by
  rw [recordOf?, allFields?_record fields h]
  rfl

theorem natural?_integer {limit n : Nat} (h : n < limit) :
    (Value.integer n).natural? limit = some n := by
  have : (n : Int) < limit := by exact_mod_cast h
  simp [natural?, within?, integer?, Option.filter, this]

theorem list?_map {α : Type} {write : α → Value} {read? : Value → Option α}
    (law : ∀ x, read? (write x) = some x) (xs : List α) :
    (array (xs.map write)).list? read? = some xs := by
  change (xs.map write).mapM read? = some xs
  rw [List.mapM_map]
  exact (mapM_eq_map (g := id) fun x _ => law x).trans (by rw [List.map_id])

theorem list?_encode {α : Type} [Codec α] [LawfulCodec α] (xs : List α) :
    (array (xs.map encode)).list? decode? = some xs :=
  list?_map LawfulCodec.decode?_encode xs

theorem named?_text {α : Type} {name : α → String} {all : List α} {x : α}
    (h : all.find? (name · == name x) = some x) : (text (name x)).named? name all = some x := h

end Value

def ofSignedWord (w : Word) : Value := .integer w.toInt

def ofUnsignedWord (w : Word) : Value := .integer w.toNat

def ofNat (n : Nat) : Value := .integer n

theorem signedWord?_ofSignedWord (w : Word) : (ofSignedWord w).signedWord? = some w := by
  have low := BitVec.le_toInt w
  have high := BitVec.toInt_lt (x := w)
  simp only [ofSignedWord, Value.signedWord?, Value.within?, Value.integer?, Option.filter]
  rw [if_pos (by simp; omega)]
  simp

theorem unsignedWord?_ofUnsignedWord (w : Word) : (ofUnsignedWord w).unsignedWord? = some w := by
  rw [Value.unsignedWord?, ofUnsignedWord, Value.natural?_integer w.isLt]
  simp

end OneBus.Json
