import OneBus.Proofs.Addresses
import OneBus.Proofs.Tokens

/-!
Where labels point to in the address space. A label stands for the address behind the instructions
above it, and addresses count modulo 2^16, so 32768 instructions on they are the same again. Nothing
stops a source from growing that long: `ofSource_halt` puts one more instruction below any source
that assembles. Up to 32766 instructions labels are kept apart, `Separated`; one at 32767 gets the
address 0, which for the entry label means that there is none.
-/

namespace OneBus

namespace Assembly

open Text

/-- a source with one more line -/
def below (source text : String) : String := source ++ "\n" ++ text

theorem linesOf_below (source : String) {text : String} (single : '\n' ∉ text.toList) :
    linesOf (below source text) =
      linesOf source ++ [⟨(linesOf source).length + 1, tokensOf text.toList⟩] := by
  have chars : (below source text).toList = source.toList ++ '\n' :: text.toList := by simp [below]
  rw [linesOf, chars, cut_separated rfl, cut_clean (clean_of_single single), List.zipIdx_append,
    List.map_append]
  simp [linesOf, Nat.add_comm]

section

variable {s : Statement} {symbols more : Symbols}

theorem Statement.addressAmong_extend
    (known : ∀ name a, symbols.lookup name = some a → more.lookup name = some a) {a : Word}
    (address : addressAmong symbols s.operands = .ok a) : addressAmong more s.operands = .ok a := by
  cases found : s.operands.find? (·.slot = .target) with
  | none => rwa [addressAmong, found] at address ⊢
  | some o =>
    rw [addressAmong, found] at address ⊢
    obtain ⟨b, rfl⟩ | ⟨name, rfl⟩ := slot_target (by simpa using List.find?_some found)
    · exact address
    · cases entry : symbols.lookup name with
      | none =>
        simp only [resolve, entry] at address
        cases address
      | some b =>
        simp only [resolve, entry, known name b entry] at address ⊢
        exact address

theorem Statement.encode_extend
    (known : ∀ name a, symbols.lookup name = some a → more.lookup name = some a)
    {is : List Instruction} (h : s.encode symbols = .ok is) : s.encode more = .ok is := by
  obtain ⟨t, -, -, encode⟩ := exists_template (fits_of_encode h)
  rw [encode] at h
  obtain ⟨a, address, rest⟩ := exists_ok_of_bind h
  rw [encode, addressAmong_extend known address]
  exact rest

end

namespace Emits

variable {symbols more : Symbols} {ss : List Statement} {code : List Instruction}

theorem extend (known : ∀ name a, symbols.lookup name = some a → more.lookup name = some a)
    (h : Emits symbols ss code) : Emits more ss code := by
  induction h with
  | nil => exact .nil
  | cons first _ ih => exact .cons (Statement.encode_extend known first) ih

theorem concat (h : Emits symbols ss code) {s : Statement} {is : List Instruction}
    (last : s.encode symbols = .ok is) : Emits symbols (ss ++ [s]) (code ++ is) := by
  induction h with
  | nil => simpa using Emits.cons last .nil
  | cons first _ ih =>
    rw [List.cons_append, List.append_assoc]
    exact .cons first ih

end Emits

namespace Program

variable {source text : String} {p : Program}

theorem ofSource_eq_ok_iff [Build] : ofSource source = .ok p ↔
    ∃ l, Layout.ofLines (linesOf source) = .ok l ∧ ofLayout l = .ok p := by
  rw [ofSource]
  cases first : Layout.ofLines (linesOf source) <;> simp [bind, Except.bind]

theorem ofLines_below [Build] {l l' : Layout} (done : Layout.ofLines (linesOf source) = .ok l)
    (single : '\n' ∉ text.toList)
    (step : l.addLine ⟨(linesOf source).length + 1, tokensOf text.toList⟩ = .ok l') :
    Layout.ofLines (linesOf (below source text)) = .ok l' := by
  rw [Layout.ofLines] at done
  rw [linesOf_below source single, Layout.ofLines, List.foldlM_append, done]
  change [_].foldlM Layout.addLine l = _
  rw [List.foldlM_cons, step]
  rfl

theorem ofSource_halt [Build] (assembled : ofSource source = .ok p) :
    ofSource (below source "hlt") = .ok ⟨p.symbols, p.body ++ [.of .halt]⟩ := by
  obtain ⟨l, first, second⟩ := ofSource_eq_ok_iff.1 assembled
  obtain ⟨symbols, emits⟩ := ofLayout_eq_ok_iff.1 second
  have step : l.addLine ⟨(linesOf source).length + 1, tokensOf "hlt".toList⟩ =
      .ok { l with
        next := l.next + BitVec.ofNat 16 (Image.unitsPerInstruction * 1)
        statements := l.statements.push ⟨(linesOf source).length + 1, "hlt", [], rfl⟩ } := rfl
  refine ofSource_eq_ok_iff.2 ⟨_, ofLines_below first (by decide) step, ?_⟩
  refine ofLayout_eq_ok_iff.2 ⟨symbols, ?_⟩
  rw [Array.toList_push]
  exact emits.concat rfl

/-- a new label at the end stands for the address behind the last instruction, and changes no
code -/
theorem ofSource_label [Build] (assembled : ofSource source = .ok p) (single : '\n' ∉ text.toList)
    {name : List Char} (tokens : tokensOf text.toList = [colons ++ name]) (valid : LabelName name)
    (fresh : p.symbols.lookup (String.ofList name) = none) :
    ofSource (below source text) =
      .ok ⟨(String.ofList name, Image.addressOf p.body.length) :: p.symbols, p.body⟩ := by
  obtain ⟨l, first, second⟩ := ofSource_eq_ok_iff.1 assembled
  obtain ⟨symbols, emits⟩ := ofLayout_eq_ok_iff.1 second
  have surveyed := (clear_of_ofLines first).2
  have next : l.next = Image.addressOf p.body.length := by
    rw [surveyed.next, ← surveyed.statements, emits.length]
  rw [symbols] at fresh
  have step : l.addLine ⟨(linesOf source).length + 1, tokensOf text.toList⟩ =
      .ok { l with symbols := (String.ofList name, l.next) :: l.symbols } := by
    have reads : Line.Reads ⟨(linesOf source).length + 1, tokensOf text.toList⟩
        (.label (String.ofList name)) := .label tokens valid
    rw [Layout.addLine, Line.item_of_reads reads]
    change Except.mapError _ (l.add (.label _)) = _
    rw [Layout.add, fresh]
    rfl
  refine ofSource_eq_ok_iff.2 ⟨_, ofLines_below first single step, ?_⟩
  refine ofLayout_eq_ok_iff.2 ⟨by rw [next, symbols], emits.extend fun other a known => ?_⟩
  have apart : (other == String.ofList name) = false := by
    rw [beq_eq_false_iff_ne]
    rintro rfl
    cases fresh.symm.trans known
  rw [List.lookup_cons, apart]
  exact known

end Program

/-- a source with so many more lines that halt -/
def withHalts (source : String) : Nat → String
  | 0 => source
  | count + 1 => below (withHalts source count) "hlt"

theorem Program.ofSource_withHalts [Build] {source : String} {p : Program}
    (assembled : ofSource source = .ok p) (count : Nat) :
    ofSource (withHalts source count) =
      .ok ⟨p.symbols, p.body ++ List.replicate count (.of .halt)⟩ := by
  induction count with
  | zero =>
    rw [List.replicate_zero, List.append_nil]
    exact assembled
  | succ count ih => rw [withHalts, ofSource_halt ih, List.replicate_succ', List.append_assoc]

/-- labels with different instructions behind them have different addresses, outside the header, and
the entry label is an entry point -/
structure Separated [Build] (lines : List Line) (p : Program) : Prop where
  apart : ∀ name name' n n', Marks p.symbols lines name n → Marks p.symbols lines name' n' →
    n ≠ n' → p.symbols.lookup name ≠ p.symbols.lookup name'
  outside : ∀ name, p.symbols.lookup name ≠ some 0 ∧ p.symbols.lookup name ≠ some 1
  entered : Defined lines Program.entryLabel → p.image.entry ≠ 0 ∧ p.image.start = p.image.entry

/-- the addresses of labels, by how many instructions are above them -/
structure Pointed [Build] (lines : List Line) (p : Program) : Prop where
  defined : ∀ name, (p.symbols.lookup name).isSome ↔ Defined lines name
  bounded : ∀ name n, Marks p.symbols lines name n → n ≤ p.body.length
  marked : ∀ name a, p.symbols.lookup name = some a ↔
    ∃ n, Marks p.symbols lines name n ∧ a = Image.addressOf n
  same : ∀ name name' n n', Marks p.symbols lines name n → Marks p.symbols lines name' n' →
    (p.symbols.lookup name = p.symbols.lookup name' ↔ n % 32768 = n' % 32768)
  outside : ∀ name n, Marks p.symbols lines name n →
    p.symbols.lookup name ≠ some 1 ∧ (p.symbols.lookup name = some 0 ↔ n % 32768 = 32767)
  entry : ∀ n, Marks p.symbols lines Program.entryLabel n →
    (p.image.entry = 0 ↔ n % 32768 = 32767) ∧
      p.image.start = if n % 32768 = 32767 then Image.bodyStart else Image.addressOf n

section

variable {source : String} {lines : List Line} {p : Program}

theorem Marks.le [Build] {symbols : Symbols} {code : List Instruction}
    (emits : Emits symbols (statementsOf lines) code) {name : String} {n : Nat}
    (marks : Marks symbols lines name n) : n ≤ code.length := by
  obtain ⟨above, ⟨line, place, -⟩, rfl⟩ := (marks_iff emits).1 marks
  obtain ⟨after, split⟩ := statementsOf_prefix ((List.prefix_append above [line]).trans place)
  rw [emits.length, ← split, span_append]
  omega

theorem pointed [Build] (assembled : Program.ofSource source = .ok p) :
    Pointed (linesOf source) p := by
  obtain ⟨l, first, second⟩ := Program.ofSource_eq_ok_iff.1 assembled
  have surveyed := (clear_of_ofLines first).2
  obtain ⟨symbols, emits⟩ := Program.ofLayout_eq_ok_iff.1 second
  rw [surveyed.statements, ← symbols] at emits
  have lookup {name : String} {a : Word} : p.symbols.lookup name = some a ↔
      ∃ n, Marks p.symbols (linesOf source) name n ∧ a = Image.addressOf n := by
    rw [symbols, surveyed.lookup_eq_some_iff (symbols ▸ emits)]
  have here {name : String} {n : Nat} (marks : Marks p.symbols (linesOf source) name n) :
      p.symbols.lookup name = some (Image.addressOf n) := lookup.2 ⟨n, marks, rfl⟩
  constructor
  case defined =>
    intro name
    rw [symbols, surveyed.isSome_lookup]
  case bounded => exact fun name n marks => marks.le emits
  case marked => exact fun name a => lookup
  case same =>
    intro name name' n n' marks marks'
    rw [here marks, here marks', Option.some.injEq, addressOf_eq_iff]
  case outside =>
    intro name n marks
    rw [here marks, Ne, Option.some.injEq, Option.some.injEq, addressOf_eq_zero_iff]
    exact ⟨addressOf_ne_one n, Iff.rfl⟩
  case entry =>
    intro n marks
    have entry : p.image.entry = Image.addressOf n := by
      change p.entry = _
      rw [Program.entry, here marks, Option.getD_some]
    simp only [Image.start, entry, addressOf_eq_zero_iff, true_and]

/-- labels are separated exactly if the address space separates their places -/
theorem Pointed.separated_iff [Build] (pointed : Pointed lines p) : Separated lines p ↔
    (∀ name n, Marks p.symbols lines name n → n % 32768 ≠ 32767) ∧
      ∀ name name' n n', Marks p.symbols lines name n → Marks p.symbols lines name' n' →
        n % 32768 = n' % 32768 → n = n' := by
  constructor
  · intro separated
    constructor
    · intro name n marks last
      exact (separated.outside name).1 ((pointed.outside name n marks).2.2 last)
    · intro name name' n n' marks marks' congruent
      by_contra other
      exact separated.apart name name' n n' marks marks' other
        ((pointed.same name name' n n' marks marks').2 congruent)
  · rintro ⟨inside, apart⟩
    constructor
    · intro name name' n n' marks marks' other same
      exact other
        (apart name name' n n' marks marks' ((pointed.same name name' n n' marks marks').1 same))
    · intro name
      constructor
      · intro zero
        obtain ⟨n, marks, -⟩ := (pointed.marked name 0).1 zero
        exact inside name n marks ((pointed.outside name n marks).2.1 zero)
      · intro one
        obtain ⟨n, marks, -⟩ := (pointed.marked name 1).1 one
        exact (pointed.outside name n marks).1 one
    · intro defined
      obtain ⟨a, known⟩ := Option.isSome_iff_exists.1 ((pointed.defined _).2 defined)
      obtain ⟨n, marks, -⟩ := (pointed.marked _ a).1 known
      have some : p.image.entry ≠ 0 := mt (pointed.entry n marks).1.1 (inside _ n marks)
      exact ⟨some, if_neg some⟩

theorem Pointed.separated [Build] (pointed : Pointed lines p) (small : p.body.length ≤ 32766) :
    Separated lines p := by
  refine pointed.separated_iff.2 ⟨?_, ?_⟩
  · intro name n marks
    have bound := pointed.bounded name n marks
    omega
  · intro name name' n n' marks marks'
    have bound := pointed.bounded name n marks
    have bound' := pointed.bounded name' n' marks'
    omega

end

theorem exists_ofSource [Build] {source : String} {image : Image}
    (assembled : assemble source = .ok image) :
    ∃ p, Program.ofSource source = .ok p ∧ p.image = image := by
  obtain ⟨l, p, first, second, same⟩ := assemble_eq_ok_iff.1 assembled
  exact ⟨p, Program.ofSource_eq_ok_iff.2 ⟨l, first, second⟩, same⟩

/-- labels of an assembled source are where `Pointed` says, and separated exactly if their places
are different modulo 32768 and none is 32767, so at least if the program fits; a program that does
not fit is assembled all the same -/
theorem label_addresses [Build] {source : String} {image : Image}
    (assembled : assemble source = .ok image) :
    ∃ p, Program.ofSource source = .ok p ∧ p.image = image ∧ Pointed (linesOf source) p ∧
      (Separated (linesOf source) p ↔
        (∀ name n, Marks p.symbols (linesOf source) name n → n % 32768 ≠ 32767) ∧
          ∀ name name' n n', Marks p.symbols (linesOf source) name n →
            Marks p.symbols (linesOf source) name' n' → n % 32768 = n' % 32768 → n = n') ∧
      (image.body.length ≤ 32766 → Separated (linesOf source) p) ∧
      ∀ count, assemble (withHalts source count) =
        .ok ⟨image.entry, image.body ++ List.replicate count (.of .halt)⟩ := by
  obtain ⟨p, done, rfl⟩ := exists_ofSource assembled
  have known := pointed done
  refine ⟨p, done, rfl, known, known.separated_iff, known.separated, fun count => ?_⟩
  rw [assemble, Program.ofSource_withHalts done count]
  rfl

theorem label_addresses_jumps :
    assemble jumps = .ok jumpsImage ∧ jumpsImage.body.length ≤ 32766 ∧
      ∃ p, Program.ofSource jumps = .ok p ∧ p.image = jumpsImage ∧ Separated (linesOf jumps) p := by
  obtain ⟨p, done, same, -, -, separated, -⟩ := label_addresses assemble_jumps
  exact ⟨assemble_jumps, by decide, p, done, same, separated (by decide)⟩

/-- behind 32767 instructions the entry label gets the address 0 and sets no entry point, and one
instruction further a label has the address of the first instruction -/
theorem entry_label_lost :
    let source := below (below (below (withHalts "::first" 32767) "::main") "hlt") "::last"
    let p : Program :=
      ⟨[("last", 2), ("main", 0), ("first", 2)], List.replicate 32768 (.of .halt)⟩
    Program.ofSource source = .ok p ∧ assemble source = .ok p.image ∧
      Defined (linesOf source) Program.entryLabel ∧ p.image.entry = 0 ∧
      p.image.start = Image.bodyStart ∧ ¬ Separated (linesOf source) p := by
  intro source p
  have start : Program.ofSource "::first" = .ok ⟨[("first", 2)], []⟩ := by rfl
  have front := Program.ofSource_withHalts start 32767
  have main : tokensOf "::main".toList = [colons ++ ['m', 'a', 'i', 'n']] := by decide
  have last : tokensOf "::last".toList = [colons ++ ['l', 'a', 's', 't']] := by decide
  have valid {name : List Char} (some : name ≠ []) (all : name.all isLabelCharacter) :
      LabelName name := ⟨some, List.all_eq_true.1 all⟩
  have entered :=
    Program.ofSource_label front (by decide) main (valid (by decide) (by decide)) rfl
  have halted := Program.ofSource_halt entered
  have done : Program.ofSource source = .ok p := by
    rw [Program.ofSource_label halted (by decide) last (valid (by decide) (by decide)) rfl]
    simp only [List.nil_append, List.length_replicate, ← List.replicate_succ']
    rfl
  have defined : Defined (linesOf source) Program.entryLabel := ((pointed done).defined _).1 rfl
  refine ⟨done, by rw [assemble, done]; rfl, defined, rfl, rfl, fun separated => ?_⟩
  exact (separated.entered defined).1 rfl

end Assembly
end OneBus
