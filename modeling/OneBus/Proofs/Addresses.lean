import OneBus.Proofs.Signatures
import OneBus.Proofs.Survey

/-!
The two passes agree on addresses. The first counts a size for each statement before any operand
is looked at, and the second writes the code, each by a table of mnemonics of its own; `tablesAgree`
says that the tables have the same mnemonics and that each size is the length of the code, and
`passes_agree` that so a label stands for the unit behind the code of the lines above it.
-/

namespace OneBus.Assembly

/-- the code of statements, one after the other -/
inductive Emits (symbols : Symbols) : List Statement → List Instruction → Prop
  | nil : Emits symbols [] []
  | cons {s : Statement} {is : List Instruction} {rest : List Statement} {code : List Instruction}
    (first : s.encode symbols = .ok is) (others : Emits symbols rest code) :
    Emits symbols (s :: rest) (is ++ code)

/-- a label of a source, below lines that come to so many instructions -/
def Marks [Build] (symbols : Symbols) (lines : List Line) (name : String) (n : Nat) : Prop :=
  ∃ above code, Labelled lines above name ∧ Emits symbols (statementsOf above) code ∧
    code.length = n

/-- the two passes over a source, `l` from the first and `p` from the second: the code is in order,
and labels and entry point are where it is -/
structure Placed [Build] (lines : List Line) (l : Layout) (p : Program) : Prop where
  statements : l.statements.toList = statementsOf lines
  sizes : ∀ s ∈ statementsOf lines,
    ∃ is, s.encode p.symbols = .ok is ∧ wordCount? s.spelling = some is.length
  next : l.next.toNat = (2 + 2 * p.body.length) % 65536
  body : Emits p.symbols (statementsOf lines) p.body
  defined : ∀ s ∈ statementsOf lines, ∀ name, .label name ∈ s.operands → Defined lines name
  marked : ∀ name, Defined lines name → ∃ n, Marks p.symbols lines name n
  operands : ∀ s ∈ statementsOf lines, ∀ name, .label name ∈ s.operands →
    ∀ n, Marks p.symbols lines name n → ∃ first rest, s.encode p.symbols = .ok (first :: rest) ∧
      first.operand.toNat = (2 + 2 * n) % 65536
  entry : ∀ n, Marks p.symbols lines Program.entryLabel n → p.entry.toNat = (2 + 2 * n) % 65536
  no_entry : ¬ Defined lines Program.entryLabel → p.entry = 0

theorem toNat_addressOf (n : Nat) : (Image.addressOf n).toNat = (2 + 2 * n) % 65536 := by
  rw [Image.addressOf, BitVec.toNat_add, BitVec.toNat_ofNat]
  exact Nat.add_mod_mod ..

/-- every 32768 instructions the addresses are the same again -/
theorem addressOf_eq_iff {n k : Nat} :
    Image.addressOf n = Image.addressOf k ↔ n % 32768 = k % 32768 := by
  rw [← BitVec.toNat_inj, toNat_addressOf, toNat_addressOf]
  omega

theorem addressOf_eq_zero_iff {n : Nat} : Image.addressOf n = 0 ↔ n % 32768 = 32767 := by
  have zero : (0 : Word).toNat = 0 := rfl
  rw [← BitVec.toNat_inj, toNat_addressOf, zero]
  omega

theorem addressOf_ne_one (n : Nat) : Image.addressOf n ≠ 1 := by
  have one : (1 : Word).toNat = 1 := rfl
  rw [Ne, ← BitVec.toNat_inj, toNat_addressOf, one]
  omega

namespace Emits

variable {symbols : Symbols} {ss before after : List Statement} {code : List Instruction}

theorem length (h : Emits symbols ss code) : code.length = span ss := by
  induction h with
  | nil => rfl
  | cons first _ ih => rw [List.length_append, ih, (Statement.encode_code first).1, span]

theorem encoded (h : Emits symbols ss code) {s : Statement} (mem : s ∈ ss) :
    ∃ is, s.encode symbols = .ok is := by
  induction h with
  | nil => contradiction
  | cons first _ ih =>
    rcases List.mem_cons.1 mem with rfl | mem
    · exact ⟨_, first⟩
    · exact ih mem

theorem exists_of_encoded (h : ∀ s ∈ ss, ∃ is, s.encode symbols = .ok is) :
    ∃ code, Emits symbols ss code := by
  induction ss with
  | nil => exact ⟨[], .nil⟩
  | cons s ss ih =>
    obtain ⟨⟨is, first⟩, others⟩ := List.forall_mem_cons.1 h
    obtain ⟨code, emits⟩ := ih others
    exact ⟨_, .cons first emits⟩

theorem exists_append (h : Emits symbols (before ++ after) code) :
    ∃ front back, Emits symbols before front ∧ Emits symbols after back ∧ code = front ++ back := by
  induction before generalizing code with
  | nil => exact ⟨[], code, .nil, h, rfl⟩
  | cons s before ih =>
    cases h with
    | cons first others =>
      obtain ⟨front, back, emits, rest, rfl⟩ := ih others
      exact ⟨_, back, .cons first emits, rest, (List.append_assoc ..).symm⟩

theorem decode? (h : Emits symbols ss code) : ∀ i ∈ code, ∃ op, i.decode? = some op := by
  induction h with
  | nil => simp
  | cons first _ ih =>
    intro i mem
    rcases List.mem_append.1 mem with mem | mem
    · exact (Statement.encode_code first).2.1 i mem
    · exact ih i mem

theorem getElem? {s : Statement} {front : List Instruction}
    (h : Emits symbols (before ++ s :: after) code) (emits : Emits symbols before front) :
    ∃ i rest, s.encode symbols = .ok (i :: rest) ∧ code[front.length]? = some i := by
  obtain ⟨front', back, emits', others, rfl⟩ := h.exists_append
  have same : front'.length = front.length := emits'.length.trans emits.length.symm
  cases others with
  | @cons _ is _ code first _ =>
    have size := (Statement.encode_code first).1
    cases is with
    | nil => exact absurd s.words_pos (by simp [← size])
    | cons i rest => exact ⟨i, rest, first, by simp [← same]⟩

theorem iff_parts : Emits symbols ss code ↔
    ∃ parts, List.Forall₂ (fun s is => Statement.encode symbols s = .ok is) ss parts ∧
      parts.flatten = code := by
  constructor
  · intro h
    induction h with
    | nil => exact ⟨[], .nil, rfl⟩
    | cons first _ ih =>
      obtain ⟨parts, encoded, rfl⟩ := ih
      exact ⟨_, .cons first encoded, rfl⟩
  · rintro ⟨parts, encoded, rfl⟩
    induction encoded with
    | nil => exact .nil
    | cons first _ ih => exact .cons first ih

end Emits

namespace Program

theorem ofLayout_eq_ok_iff {l : Layout} {p : Program} :
    ofLayout l = .ok p ↔ p.symbols = l.symbols ∧ Emits l.symbols l.statements.toList p.body := by
  rw [Emits.iff_parts]
  constructor
  · intro h
    obtain ⟨parts, encoded, h⟩ := exists_ok_of_bind h
    simp only [mapM_eq_ok_iff, mapError_eq_ok_iff] at encoded
    cases h
    exact ⟨rfl, parts, encoded, rfl⟩
  · rintro ⟨symbols, parts, encoded, body⟩
    have code : l.statements.toList.mapM
        (fun s => (s.encode l.symbols).mapError (AssemblyError.mk s.line)) = .ok parts := by
      simpa only [mapM_eq_ok_iff, mapError_eq_ok_iff] using encoded
    rw [ofLayout, code]
    cases p
    subst symbols body
    rfl

theorem exists_ofLayout_iff {l : Layout} : (∃ p, ofLayout l = .ok p) ↔
    ∀ s ∈ l.statements.toList, ∃ is, s.encode l.symbols = .ok is := by
  simp only [ofLayout_eq_ok_iff]
  constructor
  · rintro ⟨p, -, emits⟩ s mem
    exact emits.encoded mem
  · intro encoded
    obtain ⟨code, emits⟩ := Emits.exists_of_encoded encoded
    exact ⟨⟨l.symbols, code⟩, rfl, emits⟩

theorem ofLayout_eq_error_iff {l : Layout} {e : AssemblyError} :
    ofLayout l = .error e ↔ ∃ before s after, l.statements.toList = before ++ s :: after ∧
      (∀ t ∈ before, ∃ is, t.encode l.symbols = .ok is) ∧
      ∃ cause, s.encode l.symbols = .error cause ∧ ⟨s.line, cause⟩ = e := by
  have fails : ofLayout l = .error e ↔ l.statements.toList.mapM
      (fun s => (s.encode l.symbols).mapError (AssemblyError.mk s.line)) = .error e := by
    rw [ofLayout]
    cases l.statements.toList.mapM
        fun s => (s.encode l.symbols).mapError (AssemblyError.mk s.line) <;>
      simp [bind, Except.bind, pure, Except.pure]
  simp only [fails, mapM_eq_error_iff, mapError_eq_ok_iff, mapError_eq_error_iff]

end Program

section

variable {symbols : Symbols} {lines : List Line} {code : List Instruction}

/-- counted or emitted, it is as many above a label -/
theorem marks_iff [Build] (emits : Emits symbols (statementsOf lines) code) {name : String}
    {n : Nat} :
    Marks symbols lines name n ↔
      ∃ above, Labelled lines above name ∧ n = span (statementsOf above) := by
  constructor
  · rintro ⟨above, front, labelled, emits, rfl⟩
    exact ⟨above, labelled, emits.length⟩
  · rintro ⟨above, ⟨line, place, reads⟩, rfl⟩
    obtain ⟨rest, split⟩ := statementsOf_prefix ((List.prefix_append above [line]).trans place)
    rw [← split] at emits
    obtain ⟨front, -, emits, -, -⟩ := emits.exists_append
    exact ⟨above, front, ⟨line, place, reads⟩, emits, emits.length⟩

theorem exists_marks [Build] (emits : Emits symbols (statementsOf lines) code) {name : String} :
    (∃ n, Marks symbols lines name n) ↔ Defined lines name := by
  simp only [marks_iff emits, ← exists_labelled]
  rw [exists_comm]
  simp

theorem Surveyed.lookup_eq_some_iff [Build] {l : Layout} (surveyed : Surveyed lines l)
    (emits : Emits symbols (statementsOf lines) code) {name : String} {a : Word} :
    l.symbols.lookup name = some a ↔ ∃ n, Marks symbols lines name n ∧ a = Image.addressOf n := by
  simp only [surveyed.symbols, marks_iff emits]
  constructor
  · rintro ⟨above, labelled, rfl⟩
    exact ⟨_, ⟨above, labelled, rfl⟩, rfl⟩
  · rintro ⟨n, ⟨above, labelled, rfl⟩, rfl⟩
    exact ⟨above, labelled, rfl⟩

theorem Surveyed.placed [Build] {l : Layout} {p : Program} (surveyed : Surveyed lines l)
    (written : Program.ofLayout l = .ok p) : Placed lines l p := by
  obtain ⟨symbols, emits⟩ := Program.ofLayout_eq_ok_iff.1 written
  rw [surveyed.statements, ← symbols] at emits
  have lookup {name : String} {a : Word} : p.symbols.lookup name = some a ↔
      ∃ n, Marks p.symbols lines name n ∧ a = Image.addressOf n := by
    rw [symbols, surveyed.lookup_eq_some_iff (symbols ▸ emits)]
  have first {s : Statement} (mem : s ∈ statementsOf lines) {name : String}
      (used : .label name ∈ s.operands) : ∃ first rest,
        s.encode p.symbols = .ok (first :: rest) ∧ p.symbols.lookup name = some first.operand := by
    obtain ⟨is, code⟩ := emits.encoded mem
    obtain ⟨first, rest, rfl, found⟩ := (Statement.encode_code code).2.2 name used
    exact ⟨first, rest, code, found⟩
  constructor
  case statements => exact surveyed.statements
  case sizes =>
    intro s mem
    obtain ⟨is, code⟩ := emits.encoded mem
    exact ⟨is, code, by rw [s.wordCount?_eq_words, (Statement.encode_code code).1]⟩
  case next => rw [surveyed.next, toNat_addressOf, emits.length]
  case body => exact emits
  case defined =>
    intro s mem name used
    obtain ⟨_, _, -, found⟩ := first mem used
    obtain ⟨n, marks, -⟩ := lookup.1 found
    exact (exists_marks emits).1 ⟨n, marks⟩
  case marked => exact fun name => (exists_marks emits).2
  case operands =>
    intro s mem name used n marks
    obtain ⟨i, rest, code, found⟩ := first mem used
    refine ⟨i, rest, code, ?_⟩
    rw [lookup.2 ⟨n, marks, rfl⟩] at found
    rw [← Option.some.inj found, toNat_addressOf]
  case entry =>
    intro n marks
    rw [Program.entry, lookup.2 ⟨n, marks, rfl⟩, Option.getD_some, toNat_addressOf]
  case no_entry =>
    intro undefined
    have unknown : p.symbols.lookup Program.entryLabel = none := by
      rw [symbols, ← Option.not_isSome_iff_eq_none, surveyed.isSome_lookup]
      exact undefined
    rw [Program.entry, unknown, Option.getD_none]

end

theorem Statement.Faulty.second_pass {known : String → Prop} {s : Statement} {cause : Cause}
    (faulty : s.Faulty known cause) : cause ≠ .overflow ∧ ∀ name, cause ≠ .unknownMnemonic name := by
  cases faulty with
  | operands _ =>
    unfold objection
    split
    case h_2 | h_3 => split <;> exact ⟨nofun, nofun⟩
    all_goals exact ⟨nofun, nofun⟩
  | label _ _ _ => exact ⟨nofun, nofun⟩
  | value _ _ _ _ => exact ⟨nofun, nofun⟩

theorem Statement.encode_ne_unknown (s : Statement) (symbols : Symbols) (name : String) :
    s.encode symbols ≠ .error (.unknownMnemonic name) :=
  fun fails => (encode_eq_error_iff.1 fails).second_pass.2 name rfl

/-- a mnemonic that one pass knows the other does, and counts the instructions of its code -/
structure TablesAgree (symbols : Symbols) (name : String) (operands : List Operand) : Prop where
  counted : ∀ code, encode symbols name operands = .ok code → wordCount? name = some code.length
  unknown : ∀ other, encode symbols name operands = .error (.unknownMnemonic other) ↔
    wordCount? name = none ∧ other = name

theorem tablesAgree (symbols : Symbols) (name : String) (operands : List Operand) :
    TablesAgree symbols name operands := by
  cases count : wordCount? name with
  | none =>
    have unknown := encode_of_unknown count symbols operands
    constructor
    · intro code done
      cases unknown.symm.trans done
    · simp [unknown, count, eq_comm]
  | some n =>
    let s : Statement := ⟨0, name, operands, Option.isSome_of_eq_some count⟩
    constructor
    · intro code done
      have encoded : s.encode symbols = .ok code := done
      rw [(Statement.encode_code encoded).1, ← s.wordCount?_eq_words]
    · intro other
      have never := s.encode_ne_unknown symbols other
      exact iff_of_false never (by simp [count])

theorem assemble_eq_ok_iff [Build] {source : String} {image : Image} :
    assemble source = .ok image ↔ ∃ l p, Layout.ofLines (linesOf source) = .ok l ∧
      Program.ofLayout l = .ok p ∧ p.image = image := by
  rw [assemble, Program.ofSource]
  cases first : Layout.ofLines (linesOf source) with
  | error e => simp [bind, Except.bind, Except.map]
  | ok l => cases second : Program.ofLayout l <;> simp [bind, Except.bind, Except.map, second]

theorem assemble_eq_error_iff [Build] {source : String} {e : AssemblyError} :
    assemble source = .error e ↔ Layout.ofLines (linesOf source) = .error e ∨
      ∃ l, Layout.ofLines (linesOf source) = .ok l ∧ Program.ofLayout l = .error e := by
  rw [assemble, Program.ofSource]
  cases first : Layout.ofLines (linesOf source) with
  | error e => simp [bind, Except.bind, Except.map]
  | ok l => cases second : Program.ofLayout l <;> simp [bind, Except.bind, Except.map, second]

theorem passes_agree [Build] (source : String) :
    (∀ image, assemble source = .ok image →
      ∃ l p, Layout.ofLines (linesOf source) = .ok l ∧ Program.ofLayout l = .ok p ∧
        p.image = image ∧ Placed (linesOf source) l p) ∧
    (∀ l, Layout.ofLines (linesOf source) = .ok l → ∀ line name,
      Program.ofLayout l ≠ .error ⟨line, .unknownMnemonic name⟩) ∧
    ∀ symbols name operands, TablesAgree symbols name operands := by
  refine ⟨?_, ?_, tablesAgree⟩
  · intro image done
    obtain ⟨l, p, first, second, same⟩ := assemble_eq_ok_iff.1 done
    exact ⟨l, p, first, second, same, (clear_of_ofLines first).2.placed second⟩
  · intro l _ line name fails
    obtain ⟨_, s, _, -, -, cause, refused, same⟩ := Program.ofLayout_eq_error_iff.1 fails
    cases same
    exact s.encode_ne_unknown l.symbols name refused

/-- a jump forward, and a loop over a statement of two instructions that stores behind the end -/
def jumps : String :=
  "jmp ::end\n::main\nsti ::cell -1\njump ::main # again\n::end\nhlt\n::cell\nout"

def jumpsImage : Image :=
  ⟨4, [.of .jump 10, .of (.loadImmediate .address) 12, .of .storeImmediate 0xffff, .of .jump 4,
    .of .halt, .of .output]⟩

theorem assemble_jumps : assemble jumps = .ok jumpsImage := by rfl

theorem passes_agree_jumps :
    assemble jumps = .ok jumpsImage ∧ ∃ l p, Layout.ofLines (linesOf jumps) = .ok l ∧
      Program.ofLayout l = .ok p ∧ p.image = jumpsImage ∧ Placed (linesOf jumps) l p :=
  ⟨assemble_jumps, (passes_agree jumps).1 jumpsImage assemble_jumps⟩

end OneBus.Assembly
