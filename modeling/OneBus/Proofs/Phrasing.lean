import OneBus.Listing
import OneBus.Proofs.Mnemonics
import OneBus.Proofs.Numerals
import OneBus.Proofs.Tokens

/-!
What the assembler makes of one listed instruction. An instruction is listed as a keyword and the
operands that its opcode uses, and each of them reads back as itself. So a listed instruction is a
statement, unless no mnemonic goes by its keyword, and the statement encodes the instruction again
but for an operand that was not listed.
-/

namespace OneBus

open Assembly Text

/-- how an operand is listed, and what it is -/
abbrev Entry := String × Operand

namespace Entry

def register (r : GeneralRegister) : Entry := (r.operand, .register r.register)

def address (x : Word) : Entry := ("%" ++ hex x.toNat, .address x)

def numeral (n : Int) : Entry := (decimal n, .numeral n)

structure Reads [Build] (e : Entry) : Prop where
  some : e.1.toList ≠ []
  plain : ∀ c ∈ e.1.toList, isPlain c
  token : Operand.ofToken e.1.toList = .ok e.2

theorem reads_register [Build] (r : GeneralRegister) : Reads (register r) := by
  have plain : ∀ s ∈ GeneralRegister.all, s.operand.toList.all isPlain := by decide
  refine ⟨?_, List.all_eq_true.1 (plain r r.mem_all), ?_⟩
  · cases r <;> decide
  · cases r <;> rfl

theorem plain_digitChar {b d : Nat} (small : b ≤ 16) (h : d < b) : isPlain d.digitChar := by
  have all : ∀ d < 16, isPlain d.digitChar := by decide
  exact all d (by omega)

theorem plain_toDigits {b : Nat} (base : 1 < b) (small : b ≤ 16) (n : Nat) :
    ∀ c ∈ Nat.toDigits b n, isPlain c := by
  intro c h
  obtain ⟨d, below, rfl⟩ := mem_toDigits base n h
  exact plain_digitChar small below

theorem ofToken_address [Build] {digits : List Char} {x : Word}
    (read : address? digits = Option.some x.toNat) :
    Operand.ofToken ('%' :: digits) = .ok (.address x) := by
  have small : x.toNat < UInt16.size := x.isLt
  unfold Operand.ofToken
  split
  · next name eq => exact absurd (List.cons.inj eq).1 (by decide)
  · next digits' eq =>
    obtain rfl := (List.cons.inj eq).2
    rw [read]
    dsimp only
    rw [if_pos small, BitVec.ofNat_toNat, BitVec.setWidth_eq]
  · next name eq => exact absurd (List.cons.inj eq).1 (by decide)
  · next other _ => exact absurd rfl (other digits)

theorem reads_address [Build] (x : Word) : Reads (address x) := by
  have chars : (address x).1.toList = '%' :: Nat.toDigits 16 x.toNat := by
    simp [address, hex]
  have bound := x.isLt
  refine ⟨by simp [chars], ?_, ?_⟩
  · rw [chars]
    intro c h
    obtain rfl | h := List.mem_cons.1 h
    · decide
    · exact plain_toDigits (by decide) (by decide) _ c h
  · rw [chars]
    refine ofToken_address ?_
    have read := address?_hex (n := x.toNat) (by unfold UInt32.size; omega)
    rwa [hex, String.toList_ofList] at read

theorem ofToken_numeral [Build] {token : Token} {n : Int} (read : readNumeral token = .number n)
    (none : ∀ c ∈ token, c ≠ '$' ∧ c ≠ '%' ∧ c ≠ ':') :
    Operand.ofToken token = .ok (.numeral n) := by
  unfold Operand.ofToken
  split
  · exact absurd rfl (none '$' List.mem_cons_self).1
  · exact absurd rfl (none '%' List.mem_cons_self).2.1
  · exact absurd rfl (none ':' List.mem_cons_self).2.2
  · rw [read]

theorem reads_numeral [Build] {n : Int} (fits : n.natAbs < 0x8000000000000000) :
    Reads (numeral n) := by
  have chars (c : Char) (h : c ∈ (decimal n).toList) :
      isPlain c ∧ c ≠ '$' ∧ c ≠ '%' ∧ c ≠ ':' := by
    obtain rfl | ⟨d, below, rfl⟩ := mem_decimal h
    · exact ⟨by decide, by decide⟩
    · have all : ∀ d < 10, d.digitChar ≠ '$' ∧ d.digitChar ≠ '%' ∧ d.digitChar ≠ ':' := by decide
      exact ⟨plain_digitChar (by decide) below, all d below⟩
  refine ⟨?_, fun c h => (chars c h).1, ?_⟩
  · rw [numeral, toList_decimal]
    simp
  · exact ofToken_numeral (readNumeral_decimal fits) fun c h => (chars c h).2

end Entry

namespace Opcode

/-- the word that an opcode is listed with -/
def keyword : Opcode → String
  | move _ => "mov"
  | load _ => "lod"
  | loadImmediate _ => "ldi"
  | store _ => "sto"
  | storeImmediate => "store_immediate"
  | add => "add"
  | sum => "sum"
  | subtract => "sub"
  | difference => "dif"
  | compare => "compare"
  | jump => "jmp"
  | jumpZero => "jz"
  | jumpCarry => "jc"
  | input => "in"
  | output => "out"
  | halt => "hlt"

/-- what a source says for it, if there is something -/
def mnemonic? : Opcode → Option Mnemonic
  | move _ => some .move
  | load _ => some .load
  | loadImmediate _ => some .loadImmediate
  | store _ => some .store
  | add => some .add
  | sum => some .sum
  | subtract => some .subtract
  | difference => some .difference
  | jump => some .jump
  | jumpZero => some .jumpZero
  | jumpCarry => some .jumpCarry
  | input => some .input
  | output => some .output
  | halt => some .halt
  | storeImmediate | compare => none

def entries (op : Opcode) (x : Word) : List Entry :=
  match op with
  | move m => [.register m.source, .register m.target]
  | load r | store r => [.register r, .address x]
  | loadImmediate r => [.register r, .numeral x.toInt]
  | storeImmediate => [.numeral x.toInt]
  | add | subtract | compare | jump | jumpZero | jumpCarry => [.address x]
  | input => [.register .io]
  | sum | difference | output | halt => []

def listsOperand : Opcode → Bool
  | move _ | sum | difference | input | output | halt => false
  | _ => true

theorem lookup_keyword (op : Opcode) :
    Mnemonic.names.lookup (lower op.keyword.toList) = op.mnemonic? := by
  have all : ∀ o ∈ Opcode.all,
      Mnemonic.names.lookup (lower o.keyword.toList) = o.mnemonic? := by decide
  exact all op op.mem_all

theorem reads_entries [Build] (op : Opcode) (x : Word) : ∀ e ∈ op.entries x, e.Reads := by
  have register (r : GeneralRegister) := Entry.reads_register r
  have address := Entry.reads_address x
  have numeral : (Entry.numeral x.toInt).Reads := by
    refine Entry.reads_numeral ?_
    have lower := x.le_toInt
    have upper := x.toInt_lt
    omega
  cases op <;> simp only [entries, List.forall_mem_cons, List.not_mem_nil, false_implies,
    implies_true, and_true, register, address, numeral]

theorem toList_text (op : Opcode) (x : Word) :
    (op.text x).toList = phrase op.keyword.toList ((op.entries x).map (·.1.toList)) := by
  unfold text
  cases op <;> simp [keyword, entries, phrase, Entry.register, Entry.address, Entry.numeral,
    GeneralRegister.operand]

theorem eq_id_of_ofId? {w : Word} {op : Opcode} (h : ofId? w = some op) : w = op.id := by
  obtain ⟨i, place, found⟩ := Option.bind_eq_some_iff.1 h
  obtain ⟨-, rfl⟩ := Word.index?_eq_some_iff.1 place
  have all : ∀ i < all.length, all[i]?.map number = some i := by decide
  have number := all w.toNat (List.getElem?_eq_some_iff.1 found).1
  rw [found, Option.map_some, Option.some.injEq] at number
  rw [id, number, BitVec.ofNat_toNat, BitVec.setWidth_eq]

theorem ofRegister?_register (r : GeneralRegister) :
    GeneralRegister.ofRegister? r.register = some r := by
  cases r <;> rfl

theorem moveOf?_register (m : Move) :
    moveOf? m.source.register m.target.register = some (.move m) := by
  simp [moveOf?, ofRegister?_register, move?, m.distinct]

theorem select_register {f : GeneralRegister → Opcode} (r : GeneralRegister) :
    select (fun s => (GeneralRegister.ofRegister? s).map f) r.register = .ok (f r) := by
  rw [select, ofRegister?_register]
  rfl

theorem immediate_toInt (x : Word) : immediate x.toInt = .ok x := by
  have lower := x.le_toInt
  have upper := x.toInt_lt
  rw [immediate, if_pos (by omega), BitVec.ofInt_toInt]

theorem size_mnemonic {op : Opcode} {mnemonic : Mnemonic} (named : op.mnemonic? = some mnemonic) :
    mnemonic.size = 1 := by
  cases op <;> cases named <;> rfl

theorem encode_entries {op : Opcode} {mnemonic : Mnemonic} (named : op.mnemonic? = some mnemonic)
    (name : String) (x : Word) (symbols : Symbols) :
    mnemonic.form symbols name ((op.entries x).map (·.2)) =
      .ok [.of op (if op.listsOperand then x else 0)] := by
  cases op with
  | move m =>
    cases named
    dsimp only [entries, Entry.register, List.map, Mnemonic.form, Form.move]
    rw [moveOf?_register]
    rfl
  | load r =>
    cases named
    exact congrArg (· >>= fun op => addressed symbols op (.address x)) (select_register r)
  | loadImmediate r =>
    cases named
    change select loadImmediateOf? r.register >>= (fun op => immediate x.toInt >>= fun y =>
      pure [Instruction.of op y]) = _
    rw [immediate_toInt]
    exact congrArg (· >>= fun op => pure [Instruction.of op x]) (select_register r)
  | store r =>
    cases named
    exact congrArg (· >>= fun op => addressed symbols op (.address x)) (select_register r)
  | storeImmediate | compare => cases named
  | _ =>
    cases named
    rfl

end Opcode

namespace Instruction

def keyword (i : Instruction) : String :=
  match i.decode? with
  | some op => op.keyword
  | none => "???"

def mnemonic? (i : Instruction) : Option Mnemonic := i.decode?.bind Opcode.mnemonic?

def entries (i : Instruction) : List Entry :=
  match i.decode? with
  | some op => op.entries i.operand
  | none => [.numeral i.opcode.toInt, .numeral i.operand.toNat]

/-- a known opcode that a source has a word for -/
def Nameable (i : Instruction) : Prop :=
  ∃ op, i.decode? = some op ∧ op ≠ .storeImmediate ∧ op ≠ .compare

theorem nameable_iff (i : Instruction) : i.Nameable ↔ ∃ mnemonic, i.mnemonic? = some mnemonic := by
  constructor
  · rintro ⟨op, decoded, notStore, notCompare⟩
    rw [mnemonic?, decoded]
    cases op <;> first | contradiction | exact ⟨_, rfl⟩
  · rintro ⟨mnemonic, known⟩
    obtain ⟨op, decoded, named⟩ := Option.bind_eq_some_iff.1 known
    refine ⟨op, decoded, ?_, ?_⟩ <;> rintro rfl <;> cases named

/-- with 0 for an operand that is not listed -/
def normal (i : Instruction) : Instruction :=
  match i.decode? with
  | some op => if op.listsOperand then i else { i with operand := 0 }
  | none => i

theorem lookup_keyword (i : Instruction) :
    Mnemonic.names.lookup (lower i.keyword.toList) = i.mnemonic? := by
  unfold keyword mnemonic?
  cases i.decode? with
  | some op => exact op.lookup_keyword
  | none => rfl

theorem toList_keyword (i : Instruction) :
    i.keyword.toList ≠ [] ∧ ∀ c ∈ i.keyword.toList, isPlain c ∧ c ≠ ':' := by
  have all : ∀ o ∈ Opcode.all,
      o.keyword.toList ≠ [] ∧ o.keyword.toList.all fun c => isPlain c && c != ':' := by decide
  have unknown : "???".toList.all fun c => isPlain c && c != ':' := by decide
  have each {cs : List Char} (h : cs.all fun c => isPlain c && c != ':') :
      ∀ c ∈ cs, isPlain c ∧ c ≠ ':' := by
    simpa using h
  unfold keyword
  cases i.decode? with
  | some op => exact ⟨(all op op.mem_all).1, each (all op op.mem_all).2⟩
  | none => exact ⟨by decide, each unknown⟩

theorem reads_entries [Build] (i : Instruction) : ∀ e ∈ i.entries, e.Reads := by
  unfold entries
  cases i.decode? with
  | some op => exact op.reads_entries i.operand
  | none =>
    have lower := i.opcode.le_toInt
    have upper := i.opcode.toInt_lt
    have bound := i.operand.isLt
    rintro e h
    simp only [List.mem_cons, List.not_mem_nil, or_false] at h
    obtain rfl | rfl := h <;> exact Entry.reads_numeral (by omega)

theorem toList_text (i : Instruction) :
    i.text.toList = phrase i.keyword.toList (i.entries.map (·.1.toList)) := by
  unfold text keyword entries
  cases i.decode? with
  | some op => exact op.toList_text i.operand
  | none => simp [phrase, Entry.numeral]

/-- the tokens of a listed instruction -/
def tokens (i : Instruction) : List Token := i.keyword.toList :: i.entries.map (·.1.toList)

theorem wordCount?_keyword (i : Instruction) :
    wordCount? (lower i.keyword.toList) = i.mnemonic?.map Mnemonic.size := by
  rw [wordCount?_eq, lookup_keyword]

theorem known_keyword {i : Instruction} {mnemonic : Mnemonic}
    (named : i.mnemonic? = some mnemonic) : (wordCount? (lower i.keyword.toList)).isSome := by
  rw [wordCount?_keyword, named]
  rfl

def statement (i : Instruction) (number : Nat) {mnemonic : Mnemonic}
    (named : i.mnemonic? = some mnemonic) : Statement :=
  ⟨number, lower i.keyword.toList, i.entries.map (·.2), known_keyword named⟩

theorem mnemonic_statement {i : Instruction} {mnemonic : Mnemonic}
    (named : i.mnemonic? = some mnemonic) (number : Nat) :
    (i.statement number named).mnemonic = mnemonic :=
  Statement.mnemonic_eq (i.lookup_keyword.trans named)

theorem mapM_reads [Build] {es : List Entry} (h : ∀ e ∈ es, e.Reads) :
    (es.map (·.1.toList)).mapM Operand.ofToken = .ok (es.map (·.2)) := by
  induction es with
  | nil => rfl
  | cons e es ih =>
    rw [List.map_cons, List.mapM_cons, (h e List.mem_cons_self).token,
      ih fun e he => h e (List.mem_cons_of_mem _ he)]
    rfl

theorem item_tokens [Build] (i : Instruction) (number : Nat) :
    (Line.mk number i.tokens).item =
      if known : (wordCount? (lower i.keyword.toList)).isSome then
        .ok (.statement ⟨number, lower i.keyword.toList, i.entries.map (·.2), known⟩)
      else .error (.unknownMnemonic i.keyword) := by
  have colon {rest : List Char} (h : i.keyword.toList = ':' :: rest) : False :=
    (i.toList_keyword.2 ':' (h ▸ List.mem_cons_self)).2 rfl
  unfold Line.item tokens
  split
  · next eq => cases eq
  · next name eq => exact (colon (List.cons.inj eq).1).elim
  · next eq => exact (colon (List.cons.inj eq).1).elim
  · next first rest _ _ eq =>
    obtain ⟨rfl, rfl⟩ := List.cons.inj eq
    rw [mapM_reads i.reads_entries, String.ofList_toList]
    rfl

theorem encode_statement {i : Instruction} {mnemonic : Mnemonic}
    (known : i.mnemonic? = some mnemonic) (number : Nat) (symbols : Symbols) :
    (i.statement number known).encode symbols = .ok [i.normal] := by
  obtain ⟨op, decoded, named⟩ := Option.bind_eq_some_iff.1 known
  have code : i = .of op i.operand := by
    rw [Instruction.of, ← Opcode.eq_id_of_ofId? decoded]
  have encoded := op.encode_entries named (lower i.keyword.toList) i.operand symbols
  rw [Statement.encode_eq_form, mnemonic_statement, statement, entries, normal, decoded]
  dsimp only
  rw [encoded]
  split
  · rw [← code]
  · rw [code]
    rfl

end Instruction

end OneBus
