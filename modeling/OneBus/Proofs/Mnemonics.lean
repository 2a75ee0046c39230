import OneBus.Assembly.Encoding

/-!
The mnemonics of the assembly language, with their names. Each pass has a table of its own by name,
the first for how many instructions a statement comes to and the second for what it does with the
operands. Main statements: `wordCount?_eq` and `encode_eq`, the two tables have the same names, and
those of a mnemonic are treated alike by each; `encode_of_unknown`, the second pass refuses what the
first does not count.
-/

namespace OneBus.Assembly

inductive Mnemonic
  | move | load | loadImmediate | store | storeImmediate
  | add | subtract | sum | difference
  | input | output | halt | jump | jumpZero | jumpCarry
  deriving DecidableEq

namespace Mnemonic

def names : List (String × Mnemonic) :=
  [("mov", move), ("move", move), ("lod", load), ("load", load), ("ldi", loadImmediate),
   ("load_i", loadImmediate), ("sto", store), ("store", store), ("sti", storeImmediate),
   ("store_i", storeImmediate), ("add", add), ("sub", subtract), ("sum", sum),
   ("dif", difference), ("difference", difference), ("in", input), ("input", input),
   ("out", output), ("output", output), ("hlt", halt), ("halt", halt), ("jmp", jump),
   ("jump", jump), ("jz", jumpZero), ("jump_z", jumpZero), ("jc", jumpCarry),
   ("jump_c", jumpCarry)]

/-- how many instructions a statement takes up -/
def size : Mnemonic → Nat
  | storeImmediate => 2
  | _ => 1

/-- the operands as a message lists them; the register of an input may also be left out -/
def expects : Mnemonic → String
  | move => "register, register"
  | load | store => "register, address"
  | loadImmediate => "register, numeral"
  | storeImmediate => "address, numeral"
  | add | subtract => "address"
  | sum | difference | output | halt => ""
  | input => "register"
  | jump | jumpZero | jumpCarry => "label"

/-- what the second pass makes of the operands -/
def form (symbols : Symbols) (name : String) : Mnemonic → Form
  | move => .move name
  | load => .transfer symbols name Opcode.loadOf?
  | loadImmediate => .loadImmediate name
  | store => .transfer symbols name Opcode.storeOf?
  | storeImmediate => .storeImmediate symbols name
  | add => .single symbols name .add "address"
  | subtract => .single symbols name .subtract "address"
  | sum => .bare name .sum
  | difference => .bare name .difference
  | input => .input name
  | output => .bare name .output
  | halt => .bare name .halt
  | jump => .single symbols name .jump "label"
  | jumpZero => .single symbols name .jumpZero "label"
  | jumpCarry => .single symbols name .jumpCarry "label"

end Mnemonic

theorem lookup_names_none {name : String} (other : ∀ entry ∈ Mnemonic.names, name ≠ entry.1) :
    Mnemonic.names.lookup name = none := by
  rw [List.lookup_eq_none_iff]
  exact fun entry mem => bne_iff_ne.2 (other entry mem)

/-- the table of the first pass -/
theorem wordCount?_eq (name : String) :
    wordCount? name = (Mnemonic.names.lookup name).map Mnemonic.size := by
  unfold wordCount?
  split
  case h_28 =>
    rw [lookup_names_none]
    · rfl
    · simp_all [Mnemonic.names]
  all_goals rfl

/-- the table of the second pass -/
theorem encode_eq (symbols : Symbols) (name : String) :
    encode symbols name = match Mnemonic.names.lookup name with
      | some mnemonic => mnemonic.form symbols name
      | none => fun _ => .error (.unknownMnemonic name) := by
  unfold encode
  split
  case h_28 =>
    rw [lookup_names_none]
    simp_all [Mnemonic.names]
  all_goals rfl

theorem encode_of_unknown {name : String} (unknown : wordCount? name = none) (symbols : Symbols)
    (operands : List Operand) : encode symbols name operands = .error (.unknownMnemonic name) := by
  rw [wordCount?_eq, Option.map_eq_none_iff] at unknown
  rw [encode_eq, unknown]

theorem isSome_lookup_iff (name : String) :
    (Mnemonic.names.lookup name).isSome ↔ (wordCount? name).isSome := by
  rw [wordCount?_eq, Option.isSome_map]

namespace Statement

def mnemonic (s : Statement) : Mnemonic :=
  (Mnemonic.names.lookup s.spelling).get ((isSome_lookup_iff s.spelling).2 s.known)

theorem lookup_spelling (s : Statement) :
    Mnemonic.names.lookup s.spelling = some s.mnemonic := (Option.some_get _).symm

theorem mnemonic_eq {s : Statement} {mnemonic : Mnemonic}
    (known : Mnemonic.names.lookup s.spelling = some mnemonic) : s.mnemonic = mnemonic :=
  Option.some.inj (s.lookup_spelling.symm.trans known)

theorem wordCount?_spelling (s : Statement) :
    wordCount? s.spelling = some s.mnemonic.size := by
  rw [wordCount?_eq, s.lookup_spelling]
  rfl

theorem wordCount?_eq_words (s : Statement) : wordCount? s.spelling = some s.words :=
  (Option.some_get _).symm

theorem words_eq (s : Statement) : s.words = s.mnemonic.size := by
  simp only [words, s.wordCount?_spelling, Option.get_some]

theorem words_pos (s : Statement) : 0 < s.words := by
  rw [words_eq]
  cases s.mnemonic <;> decide

theorem encode_eq_form (s : Statement) (symbols : Symbols) :
    s.encode symbols = s.mnemonic.form symbols s.spelling s.operands := by
  rw [encode, encode_eq, s.lookup_spelling]

end Statement

end OneBus.Assembly
