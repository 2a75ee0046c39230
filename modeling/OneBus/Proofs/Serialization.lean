import OneBus.Machine.Snapshot
import OneBus.Proofs.JsonText

/-!
Snapshots through a JSON library. The library is a parameter: its printer and its parser, and for
each type in a snapshot the code that it derives. `Documented` is what its documentation says of
these: how values print without blanks, that a text spelled like that is read, up to the depth that
the parser goes to, and the form of each kind of type. Main statement: `Snapshot.read_back`, a
snapshot comes back from its text. The library of the program is one of that kind, `own_documented`.
-/

namespace OneBus.Json

/-- no quotes, no backslash and no control characters -/
def Unescaped (s : String) : Prop := ∀ c ∈ s.toList, c ≠ '"' ∧ c ≠ '\\' ∧ 0x20 ≤ c.toNat

instance (s : String) : Decidable (Unescaped s) := List.decidableBAll _ s.toList

/-- a text without blanks for a value of so many levels of arrays and objects at most -/
inductive Spells : Nat → Value → String → Prop
  | integer {depth : Nat} {n : Int} (low : -0x8000000000000000 ≤ n)
    (high : n < 0x10000000000000000) :
    Spells depth (.integer n) (Text.decimal n)
  | text {depth : Nat} {s : String} (plain : Unescaped s) : Spells depth (text s) ("\"" ++ s ++ "\"")
  | array {depth : Nat} {items : List (Value × String)}
    (spelled : ∀ item ∈ items, Spells depth item.1 item.2) :
    Spells (depth + 1) (.array (items.map (·.1)))
      ("[" ++ String.intercalate "," (items.map (·.2)) ++ "]")
  | record {depth : Nat} {fields : List ((String × Value) × String)}
    (names : ∀ f ∈ fields, Unescaped f.1.1) (spelled : ∀ f ∈ fields, Spells depth f.1.2 f.2) :
    Spells (depth + 1) (record (fields.map (·.1)))
      ("\x7b" ++ String.intercalate "," (fields.map fun f => "\"" ++ f.1.1 ++ "\"" ++ ":" ++ f.2) ++
        "\x7d")

theorem quote_of_unescaped {s : String} (plain : Unescaped s) : quote s = "\"" ++ s ++ "\"" := by
  have single (c : Char) (mem : c ∈ s.toList) : escape c = [c] := by
    obtain ⟨noQuote, noSlash, printed⟩ := plain c mem
    unfold escape
    split
    case h_8 => exact if_neg (by omega)
    all_goals simp_all
  have same : s.toList.flatMap escape = s.toList := by
    rw [List.flatMap_def, List.map_congr_left single, ← List.flatMap_def]
    simp
  rw [quote, same, String.ofList_toList]

theorem compact_array (vs : List Value) :
    compact (.array vs) = "[" ++ String.intercalate "," (vs.map compact) ++ "]" := by
  have parts : compactItems vs = vs.map compact := by
    induction vs with
    | nil => rfl
    | cons v vs ih => rw [compactItems, ih, List.map_cons]
  rw [compact, parts]

theorem compact_record (fs : List (String × Value)) :
    compact (record fs) = "\x7b" ++
      String.intercalate "," (fs.map fun f => quote f.1 ++ ":" ++ compact f.2) ++ "\x7d" := by
  have parts :
      compactFields (fs.map field) = fs.map fun f => quote f.1 ++ ":" ++ compact f.2 := by
    induction fs with
    | nil => rfl
    | cons f fs ih =>
      rw [List.map_cons, field, compactFields, ih, List.map_cons]
      rfl
  rw [record, compact, parts]

theorem Spells.plain {depth : Nat} {v : Value} {text : String} (spelled : Spells depth v text) :
    v.Plain ∧ compact v = text := by
  induction spelled with
  | integer _ _ => exact ⟨.integer _, rfl⟩
  | text plain => exact ⟨.text _, quote_of_unescaped plain⟩
  | @array _ items _ ih =>
    refine ⟨.array (List.forall_mem_map.2 fun item mem => (ih item mem).1), ?_⟩
    rw [compact_array, List.map_map]
    congr 3
    exact List.map_congr_left fun item mem => (ih item mem).2
  | @record _ fields names _ ih =>
    refine ⟨.record (List.forall_mem_map.2 fun f mem => (ih f mem).1), ?_⟩
    rw [compact_record, List.map_map]
    congr 3
    refine List.map_congr_left fun f mem => ?_
    rw [Function.comp_apply, quote_of_unescaped (names f mem), (ih f mem).2]

namespace Codec

variable {α β : Type}

/-- integers by their value -/
structure IsInteger (c : Codec α) (value : α → Int) : Prop where
  encode x : c.encode x = .integer (value x)
  decode x : c.decode? (.integer (value x)) = some x

/-- an enumeration without data -/
structure IsNames (c : Codec α) (name : α → String) : Prop where
  encode x : c.encode x = text (name x)
  decode x : c.decode? (text (name x)) = some x

/-- one field without a name -/
structure IsNewtype (c : Codec α) (content : Codec β) (wrap : β → α) : Prop where
  encode x : c.encode (wrap x) = content.encode x
  decode v : c.decode? v = (content.decode? v).map wrap

structure IsList (c : Codec (List α)) (item : Codec α) : Prop where
  encode xs : c.encode xs = .array (xs.map item.encode)
  decode vs : c.decode? (.array vs) = vs.mapM item.decode?

/-- a list of fixed length -/
structure IsArray (length : Nat) (c : Codec (List α)) (item : Codec α) : Prop where
  encode xs : c.encode xs = .array (xs.map item.encode)
  decode vs : vs.length = length → c.decode? (.array vs) = vs.mapM item.decode?

structure IsPair (c : Codec (α × β)) (first : Codec α) (second : Codec β) : Prop where
  encode p : c.encode p = .array [first.encode p.1, second.encode p.2]
  decode v w : c.decode? (.array [v, w]) = do return (← first.decode? v, ← second.decode? w)

section

variable {c : Codec α} {cs : Codec (List α)} {d : Codec β}

theorem IsInteger.decode?_encode {value : α → Int} (kind : c.IsInteger value) (x : α) :
    c.decode? (c.encode x) = some x := by
  rw [kind.encode, kind.decode]

theorem IsNames.decode?_encode {name : α → String} (kind : c.IsNames name) (x : α) :
    c.decode? (c.encode x) = some x := by
  rw [kind.encode, kind.decode]

theorem IsNewtype.decode?_encode {wrap : β → α} (kind : c.IsNewtype d wrap)
    (law : ∀ y, d.decode? (d.encode y) = some y) (y : β) :
    c.decode? (c.encode (wrap y)) = some (wrap y) := by
  rw [kind.encode, kind.decode, law]
  rfl

theorem IsList.decode?_encode (kind : cs.IsList c) (law : ∀ x, c.decode? (c.encode x) = some x)
    (xs : List α) : cs.decode? (cs.encode xs) = some xs := by
  rw [kind.encode, kind.decode]
  exact Value.list?_map law xs

theorem IsArray.decode?_encode {length : Nat} (kind : cs.IsArray length c)
    (law : ∀ x, c.decode? (c.encode x) = some x) {xs : List α} (full : xs.length = length) :
    cs.decode? (cs.encode xs) = some xs := by
  rw [kind.encode, kind.decode _ (by simpa using full)]
  exact Value.list?_map law xs

theorem IsPair.decode?_encode {cd : Codec (α × β)} (kind : cd.IsPair c d)
    (first : ∀ x, c.decode? (c.encode x) = some x) (second : ∀ y, d.decode? (d.encode y) = some y)
    (p : α × β) : cd.decode? (cd.encode p) = some p := by
  simp [kind.encode, kind.decode, first, second]

end

end Codec
end Json

open Json

/-- a JSON library with the code it derives for snapshots -/
structure Library where
  print : Value → String
  parse : String → Option Value
  condition : Codec Condition
  phase : Codec Phase
  counter : Codec UInt64
  cell : Codec Word
  bits : Codec (BitVec 32)
  word : Codec ControlWord
  cells : Codec (List Word)
  bank : Codec RegisterBank
  words : Codec (List ControlWord)
  port : Codec (UInt64 × Word)
  ports : Codec (List (UInt64 × Word))
  snapshot : Codec Snapshot

namespace Library

def write (lib : Library) (s : Snapshot) : String := lib.print (lib.snapshot.encode s)

def read? (lib : Library) (text : String) : Option Snapshot :=
  lib.parse text >>= lib.snapshot.decode?

/-- an object with the fields of a snapshot -/
def fields (lib : Library) (s : Snapshot) : List (String × Value) :=
  [("state", lib.condition.encode s.condition), ("sequencer", lib.phase.encode s.phase),
   ("ticks", lib.counter.encode s.ticks), ("instructions", lib.counter.encode s.instructions),
   ("registers", lib.bank.encode s.registers), ("last_bus", lib.cell.encode s.lastBus),
   ("pending", lib.words.encode s.pending), ("ports", lib.ports.encode s.ports)]

structure Documented (lib : Library) : Prop where
  print_integer n : lib.print (.integer n) = Text.decimal n
  print_text s : Unescaped s → lib.print (text s) = "\"" ++ s ++ "\""
  print_array vs :
    lib.print (.array vs) = "[" ++ String.intercalate "," (vs.map lib.print) ++ "]"
  print_record (fs : List (String × Value)) : (∀ f ∈ fs, Unescaped f.1) →
    lib.print (record fs) =
      "\x7b" ++ String.intercalate ","
        (fs.map fun f => "\"" ++ f.1 ++ "\"" ++ ":" ++ lib.print f.2) ++ "\x7d"
  parse v text : Spells 127 v text → lib.parse text = some v
  condition : lib.condition.IsNames Condition.name
  phase : lib.phase.IsNames Phase.name
  counter : lib.counter.IsInteger fun n => n.toNat
  cell : lib.cell.IsInteger BitVec.toInt
  bits : lib.bits.IsInteger fun b => b.toNat
  word : lib.word.IsNewtype lib.bits ControlWord.mk
  cells : lib.cells.IsArray 9 lib.cell
  words : lib.words.IsList lib.word
  port : lib.port.IsPair lib.counter lib.cell
  ports : lib.ports.IsList lib.port
  encode_bank b : lib.bank.encode b = record [("cells", lib.cells.encode b.toList)]
  decode_bank v :
    lib.bank.decode? (record [("cells", v)]) = lib.cells.decode? v >>= RegisterBank.ofList?
  encode_snapshot s : lib.snapshot.encode s = record (lib.fields s)
  decode_snapshot state sequencer ticks instructions registers bus pending ports :
    lib.snapshot.decode? (record
      [("state", state), ("sequencer", sequencer), ("ticks", ticks),
       ("instructions", instructions), ("registers", registers), ("last_bus", bus),
       ("pending", pending), ("ports", ports)]) = do
      return {
        condition := ← lib.condition.decode? state
        phase := ← lib.phase.decode? sequencer
        ticks := ← lib.counter.decode? ticks
        instructions := ← lib.counter.decode? instructions
        registers := ← lib.bank.decode? registers
        lastBus := ← lib.cell.decode? bus
        pending := ← lib.words.decode? pending
        ports := ← lib.ports.decode? ports }

namespace Documented

variable {lib : Library} (documented : lib.Documented)

include documented

section printed

variable {depth : Nat}

theorem spells_array {vs : List Value} (spelled : ∀ v ∈ vs, Spells depth v (lib.print v)) :
    Spells (depth + 1) (.array vs) (lib.print (.array vs)) := by
  have items : ∀ item ∈ vs.map fun v => (v, lib.print v), Spells depth item.1 item.2 :=
    List.forall_mem_map.2 spelled
  simpa [documented.print_array, Function.comp_def] using Spells.array items

theorem spells_record {fs : List (String × Value)} (names : ∀ f ∈ fs, Unescaped f.1)
    (spelled : ∀ f ∈ fs, Spells depth f.2 (lib.print f.2)) :
    Spells (depth + 1) (record fs) (lib.print (record fs)) := by
  have named : ∀ f ∈ fs.map fun f => (f, lib.print f.2), Unescaped f.1.1 :=
    List.forall_mem_map.2 names
  have fields : ∀ f ∈ fs.map fun f => (f, lib.print f.2), Spells depth f.1.2 f.2 :=
    List.forall_mem_map.2 spelled
  simpa [documented.print_record fs names, Function.comp_def] using Spells.record named fields

theorem spells_integer {n : Int} (low : -0x8000000000000000 ≤ n)
    (high : n < 0x10000000000000000) :
    Spells depth (.integer n) (lib.print (.integer n)) := by
  rw [documented.print_integer]
  exact .integer low high

theorem spells_text {s : String} (plain : Unescaped s) :
    Spells depth (text s) (lib.print (text s)) := by
  rw [documented.print_text s plain]
  exact .text plain

theorem spells_counter (n : UInt64) :
    Spells depth (lib.counter.encode n) (lib.print (lib.counter.encode n)) := by
  have bound := n.toNat_lt
  rw [documented.counter.encode]
  exact documented.spells_integer (by omega) (by omega)

theorem spells_cell (w : Word) :
    Spells depth (lib.cell.encode w) (lib.print (lib.cell.encode w)) := by
  have low := w.le_toInt
  have high := w.toInt_lt
  rw [documented.cell.encode]
  exact documented.spells_integer (by omega) (by omega)

theorem spells_word (w : ControlWord) :
    Spells depth (lib.word.encode w) (lib.print (lib.word.encode w)) := by
  have bound := w.bits.isLt
  rw [documented.word.encode w.bits, documented.bits.encode]
  exact documented.spells_integer (by omega) (by omega)

theorem spells_bank (b : RegisterBank) :
    Spells (depth + 2) (lib.bank.encode b) (lib.print (lib.bank.encode b)) := by
  have name : Unescaped "cells" := by decide
  rw [documented.encode_bank, documented.cells.encode]
  refine documented.spells_record (List.forall_mem_singleton.2 name)
    (List.forall_mem_singleton.2 ?_)
  exact documented.spells_array (List.forall_mem_map.2 fun w _ => documented.spells_cell w)

theorem spells_words (ws : List ControlWord) :
    Spells (depth + 1) (lib.words.encode ws) (lib.print (lib.words.encode ws)) := by
  rw [documented.words.encode]
  exact documented.spells_array (List.forall_mem_map.2 fun w _ => documented.spells_word w)

theorem spells_port (p : UInt64 × Word) :
    Spells (depth + 1) (lib.port.encode p) (lib.print (lib.port.encode p)) := by
  rw [documented.port.encode]
  refine documented.spells_array ?_
  simp only [List.forall_mem_cons]
  exact ⟨documented.spells_counter p.1, documented.spells_cell p.2, List.forall_mem_nil _⟩

theorem spells_ports (ps : List (UInt64 × Word)) :
    Spells (depth + 2) (lib.ports.encode ps) (lib.print (lib.ports.encode ps)) := by
  rw [documented.ports.encode]
  exact documented.spells_array (List.forall_mem_map.2 fun p _ => documented.spells_port p)

theorem spells_snapshot (s : Snapshot) :
    Spells (depth + 3) (lib.snapshot.encode s) (lib.write s) := by
  have condition : Unescaped s.condition.name := by cases s.condition <;> decide
  have phase : Unescaped s.phase.name := by cases s.phase <;> decide
  rw [write, documented.encode_snapshot]
  refine documented.spells_record ?_ ?_
  · have names : ∀ name ∈ ["state", "sequencer", "ticks", "instructions", "registers", "last_bus",
        "pending", "ports"], Unescaped name := by decide
    exact fun f mem => names f.1 (List.mem_map_of_mem (f := Prod.fst) mem)
  · simp only [fields, List.forall_mem_cons, documented.condition.encode, documented.phase.encode]
    exact ⟨documented.spells_text condition, documented.spells_text phase,
      documented.spells_counter _, documented.spells_counter _, documented.spells_bank _,
      documented.spells_cell _, documented.spells_words _, documented.spells_ports _,
      List.forall_mem_nil _⟩

end printed

theorem decode?_encode_bank (b : RegisterBank) : lib.bank.decode? (lib.bank.encode b) = some b := by
  rw [documented.encode_bank, documented.decode_bank,
    documented.cells.decode?_encode documented.cell.decode?_encode (by rfl)]
  exact RegisterBank.ofList?_toList b

theorem decode?_encode_words (ws : List ControlWord) :
    lib.words.decode? (lib.words.encode ws) = some ws :=
  documented.words.decode?_encode
    (fun w => documented.word.decode?_encode documented.bits.decode?_encode w.bits) ws

theorem decode?_encode_ports (ps : List (UInt64 × Word)) :
    lib.ports.decode? (lib.ports.encode ps) = some ps :=
  documented.ports.decode?_encode
    (documented.port.decode?_encode documented.counter.decode?_encode documented.cell.decode?_encode)
    ps

theorem decode?_encode_snapshot (s : Snapshot) :
    lib.snapshot.decode? (lib.snapshot.encode s) = some s := by
  rw [documented.encode_snapshot, fields, documented.decode_snapshot]
  simp [documented.condition.decode?_encode, documented.phase.decode?_encode,
    documented.counter.decode?_encode, documented.cell.decode?_encode,
    documented.decode?_encode_bank, documented.decode?_encode_words,
    documented.decode?_encode_ports]

end Documented

/-- the library of the program -/
def own : Library where
  print := compact
  parse := Json.parse
  condition := inferInstance
  phase := inferInstance
  counter := inferInstance
  cell := ⟨ofSignedWord, Value.signedWord?⟩
  bits := ⟨fun b => .integer b.toNat, fun v => (v.natural? UInt32.size).map (BitVec.ofNat 32)⟩
  word := inferInstance
  cells := ⟨fun ws => .array (ws.map ofSignedWord), Value.list? Value.signedWord?⟩
  bank := inferInstance
  words := ⟨fun ws => .array (ws.map encode), Value.list? decode?⟩
  port := inferInstance
  ports := ⟨fun ps => .array (ps.map encode), Value.list? decode?⟩
  snapshot := inferInstance

theorem own_documented : own.Documented where
  print_integer n := rfl
  print_text s plain := by
    rw [← quote_of_unescaped plain]
    rfl
  print_array vs := compact_array vs
  print_record fs names := by
    refine (compact_record fs).trans ?_
    congr 3
    exact List.map_congr_left fun f mem => by rw [quote_of_unescaped (names f mem), own]
  parse v text spelled := by
    obtain ⟨plain, rfl⟩ := spelled.plain
    exact parse_compact plain
  condition := ⟨fun _ => rfl, @LawfulCodec.decode?_encode Condition _ _⟩
  phase := ⟨fun _ => rfl, @LawfulCodec.decode?_encode Phase _ _⟩
  counter := ⟨fun _ => rfl, @LawfulCodec.decode?_encode UInt64 _ _⟩
  cell := ⟨fun _ => rfl, signedWord?_ofSignedWord⟩
  bits := by
    refine ⟨fun _ => rfl, fun b => ?_⟩
    change ((Value.integer b.toNat).natural? UInt32.size).map _ = _
    rw [Value.natural?_integer b.isLt]
    simp
  word := ⟨fun _ => rfl, fun v => (Option.map_map ..).symm⟩
  cells := ⟨fun _ => rfl, fun _ _ => rfl⟩
  words := ⟨fun _ => rfl, fun _ => rfl⟩
  port := ⟨fun _ => rfl, fun _ _ => rfl⟩
  ports := ⟨fun _ => rfl, fun _ => rfl⟩
  encode_bank b := rfl
  decode_bank v := Value.recordOf?_record _ [("cells", v)] (by simp)
  encode_snapshot s := rfl
  decode_snapshot state sequencer ticks instructions registers bus pending ports :=
    Value.recordOf?_record _
      [("state", state), ("sequencer", sequencer), ("ticks", ticks), ("instructions", instructions),
       ("registers", registers), ("last_bus", bus), ("pending", pending), ("ports", ports)] (by simp)

end Library

/-- a snapshot comes back from its text -/
theorem Snapshot.read_back (lib : Library) (documented : lib.Documented) (s : Snapshot) :
    lib.read? (lib.write s) = some s := by
  have parsed := documented.parse _ _ (documented.spells_snapshot s)
  rw [Library.read?, parsed]
  exact documented.decode?_encode_snapshot s

/-- numbers at their limits, and bits that belong to no signal -/
theorem Snapshot.read_back_limits :
    let s : Snapshot :=
      { condition := .running, phase := .executing, ticks := 0xffffffffffffffff, instructions := 1
        registers := { programCounter := 2, accumulator := 0x8000 }, lastBus := -1
        pending := [⟨0xffffffff⟩], ports := [(0, -5)] }
    Library.own.Documented ∧ Library.own.write s = "\x7b\"state\":\"Running\"," ++
      "\"sequencer\":\"Executing\",\"ticks\":18446744073709551615,\"instructions\":1," ++
      "\"registers\":\x7b\"cells\":[0,2,-32768,0,0,0,0,0,0]\x7d,\"last_bus\":-1," ++
      "\"pending\":[4294967295],\"ports\":[[0,-5]]\x7d" ∧
      Library.own.read? (Library.own.write s) = some s := by
  intro s
  exact ⟨Library.own_documented, by decide +kernel, read_back Library.own Library.own_documented s⟩

end OneBus
