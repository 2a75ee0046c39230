import OneBus.Proofs.Failing
import OneBus.Proofs.Mnemonics

/-!
The lines of the assembly language. `Line.Reads` says what a line stands for and `Line.Misread`
what is wrong with one that stands for nothing; both speak of its tokens alone. Main statements:
`item_of_reads` and `item_of_misread`, a line is read as the one says and refused as the other does;
`reads_or_misread`, there is no other line.
-/

namespace OneBus.Assembly

/-- a label that a line may define or an operand may name -/
def LabelName (name : List Char) : Prop := name ≠ [] ∧ ∀ c ∈ name, isLabelCharacter c

/-- what a token begins with that names a label -/
def colons : Token := [':', ':']

def IsOperand [Build] (t : Token) : Prop := ∃ o, Operand.ofToken t = .ok o

def Mnemonic.ofToken? (t : Token) : Option Mnemonic := names.lookup (lower t)

theorem Mnemonic.isSome_ofToken?_iff (t : Token) :
    (ofToken? t).isSome ↔ (wordCount? (lower t)).isSome := isSome_lookup_iff (lower t)

theorem Mnemonic.known_of_ofToken? {t : Token} {mnemonic : Mnemonic}
    (known : ofToken? t = some mnemonic) : (wordCount? (lower t)).isSome :=
  (isSome_ofToken?_iff t).1 (Option.isSome_of_eq_some known)

theorem Statement.mnemonic_ofToken? {t : Token} {mnemonic : Mnemonic}
    (known : Mnemonic.ofToken? t = some mnemonic) (line : Nat) (operands : List Operand) :
    (Statement.mk line (lower t) operands (Mnemonic.known_of_ofToken? known)).mnemonic = mnemonic :=
  mnemonic_eq known

namespace Line

inductive Reads [Build] (line : Line) : Item → Prop
  | blank (tokens : line.tokens = []) : Reads line .blank
  | label {name : List Char} (tokens : line.tokens = [colons ++ name]) (valid : LabelName name) :
    Reads line (.label (String.ofList name))
  | statement {first : Token} {rest : List Token} {mnemonic : Mnemonic} {operands : List Operand}
    (tokens : line.tokens = first :: rest) (known : Mnemonic.ofToken? first = some mnemonic)
    (read : List.Forall₂ (fun t o => Operand.ofToken t = .ok o) rest operands) :
    Reads line (.statement ⟨line.number, lower first, operands, Mnemonic.known_of_ofToken? known⟩)

inductive Misread [Build] (line : Line) : Cause → Prop
  | company {name next : Token} {rest : List Token}
    (tokens : line.tokens = (colons ++ name) :: next :: rest) : Misread line .labelWithCompany
  | badLabel {name : Token} (tokens : line.tokens = [colons ++ name])
    (invalid : ¬ LabelName name) : Misread line (.badLabel (String.ofList name))
  | operand {first t : Token} {before after : List Token} {cause : Cause}
    (tokens : line.tokens = first :: (before ++ t :: after)) (plain : ¬ colons <+: first)
    (fine : ∀ t ∈ before, IsOperand t) (bad : Operand.ofToken t = .error cause) :
    Misread line cause
  | mnemonic {first : Token} {rest : List Token} (tokens : line.tokens = first :: rest)
    (plain : ¬ colons <+: first) (fine : ∀ t ∈ rest, IsOperand t)
    (unknown : Mnemonic.ofToken? first = none) :
    Misread line (.unknownMnemonic (String.ofList first))

end Line

theorem labelName_ok {name : List Char} (valid : LabelName name) :
    labelName name = .ok (String.ofList name) := by
  obtain ⟨some, all⟩ := valid
  rw [labelName, if_pos]
  simpa [some] using all

theorem labelName_error {name : List Char} (invalid : ¬ LabelName name) :
    labelName name = .error (.badLabel (String.ofList name)) := by
  rw [labelName, if_neg]
  intro h
  simp only [Bool.and_eq_true, Bool.not_eq_true', List.isEmpty_eq_false_iff, List.all_eq_true] at h
  exact invalid h

/-- no mnemonic looks like a label -/
theorem ofToken?_colons (name : Token) : Mnemonic.ofToken? (colons ++ name) = none := by
  have heads : ∀ entry ∈ Mnemonic.names, entry.1.toList.head? ≠ some ':' := by decide
  rw [Mnemonic.ofToken?, List.lookup_eq_none_iff]
  intro entry h
  rw [bne_iff_ne]
  intro same
  apply heads entry h
  rw [← same, lower, String.toList_ofList]
  rfl

theorem plain_of_known {t : Token} {mnemonic : Mnemonic}
    (known : Mnemonic.ofToken? t = some mnemonic) : ¬ colons <+: t := by
  rintro ⟨name, rfl⟩
  rw [ofToken?_colons] at known
  contradiction

namespace Line

section

variable {line : Line}

theorem item_blank [Build] (tokens : line.tokens = []) : line.item = .ok .blank := by
  unfold item
  rw [tokens]

theorem item_label [Build] {name : Token} (tokens : line.tokens = [colons ++ name]) :
    line.item = (labelName name).map .label := by
  unfold item
  rw [tokens]
  rfl

theorem item_company [Build] {name next : Token} {rest : List Token}
    (tokens : line.tokens = (colons ++ name) :: next :: rest) :
    line.item = .error .labelWithCompany := by
  unfold item
  rw [tokens]
  rfl

theorem item_plain [Build] {first : Token} {rest : List Token}
    (tokens : line.tokens = first :: rest) (plain : ¬ colons <+: first) :
    line.item = rest.mapM Operand.ofToken >>= fun operands =>
      if known : (wordCount? (lower first)).isSome then
        .ok (.statement ⟨line.number, lower first, operands, known⟩)
      else .error (.unknownMnemonic (String.ofList first)) := by
  unfold item
  rw [tokens]
  split
  · next eq => cases eq
  · next name eq =>
    cases eq
    exact absurd ⟨name, rfl⟩ plain
  · next eq =>
    cases eq
    exact absurd ⟨_, rfl⟩ plain
  · next eq =>
    cases eq
    rfl

end

theorem tokens_cases (line : Line) :
    line.tokens = [] ∨ (∃ name, line.tokens = [colons ++ name]) ∨
      (∃ name next rest, line.tokens = (colons ++ name) :: next :: rest) ∨
      ∃ first rest, line.tokens = first :: rest ∧ ¬ colons <+: first := by
  cases tokens : line.tokens with
  | nil => exact .inl rfl
  | cons first rest =>
    by_cases named : colons <+: first
    · obtain ⟨name, rfl⟩ := named
      cases rest with
      | nil => exact .inr (.inl ⟨name, rfl⟩)
      | cons next rest => exact .inr (.inr (.inl ⟨name, next, rest, rfl⟩))
    · exact .inr (.inr (.inr ⟨first, rest, rfl, named⟩))

theorem item_of_reads [Build] {line : Line} {i : Item} (h : line.Reads i) : line.item = .ok i := by
  cases h with
  | blank tokens => exact item_blank tokens
  | label tokens valid => rw [item_label tokens, labelName_ok valid]; rfl
  | statement tokens known read =>
    rw [item_plain tokens (plain_of_known known), mapM_eq_ok_iff.2 read]
    exact dif_pos (Mnemonic.known_of_ofToken? known)

theorem item_of_misread [Build] {line : Line} {cause : Cause} (h : line.Misread cause) :
    line.item = .error cause := by
  cases h with
  | company tokens => exact item_company tokens
  | badLabel tokens invalid => rw [item_label tokens, labelName_error invalid]; rfl
  | operand tokens plain fine bad =>
    rw [item_plain tokens plain, mapM_eq_error_iff.2 ⟨_, _, _, rfl, fine, bad⟩]
    rfl
  | @mnemonic first _ tokens plain fine unknown =>
    obtain ⟨operands, read⟩ := exists_mapM_eq_ok_iff.2 fine
    have none : ¬ (wordCount? (lower first)).isSome := by
      simp [← Mnemonic.isSome_ofToken?_iff, unknown]
    rw [item_plain tokens plain, read]
    exact dif_neg none

theorem reads_or_misread [Build] (line : Line) :
    (∃ i, line.Reads i) ∨ ∃ cause, line.Misread cause := by
  obtain tokens | ⟨name, tokens⟩ | ⟨name, next, rest, tokens⟩ | ⟨first, rest, tokens, plain⟩ :=
    line.tokens_cases
  · exact .inl ⟨_, .blank tokens⟩
  · by_cases valid : LabelName name
    · exact .inl ⟨_, .label tokens valid⟩
    · exact .inr ⟨_, .badLabel tokens valid⟩
  · exact .inr ⟨_, .company tokens⟩
  · cases read : rest.mapM Operand.ofToken with
    | error cause =>
      obtain ⟨before, t, after, rfl, fine, bad⟩ := mapM_eq_error_iff.1 read
      exact .inr ⟨_, .operand tokens plain fine bad⟩
    | ok operands =>
      cases known : Mnemonic.ofToken? first with
      | some mnemonic => exact .inl ⟨_, .statement tokens known (mapM_eq_ok_iff.1 read)⟩
      | none =>
        have fine := exists_mapM_eq_ok_iff.1 ⟨operands, read⟩
        exact .inr ⟨_, .mnemonic tokens plain fine known⟩

theorem item_eq_ok_iff [Build] {line : Line} {i : Item} : line.item = .ok i ↔ line.Reads i := by
  constructor
  · intro h
    obtain ⟨j, reads⟩ | ⟨cause, misread⟩ := line.reads_or_misread
    · have same := h.symm.trans (item_of_reads reads)
      cases same
      exact reads
    · cases h.symm.trans (item_of_misread misread)
  · exact item_of_reads

end Line

end OneBus.Assembly
