import Mathlib.Data.Set.Function
import Mathlib.Logic.Equiv.Basic
import Mathlib.Logic.Relation
import OneBus.Proofs.Addresses
import OneBus.Proofs.Tokens

/-!
What of a source does not count: blank lines and comments, which separators stand between two tokens
and how many, the case of letters and the choice between the names of a mnemonic or a register, the
register behind an input, and how labels are called. `Edit` is one such change, said of the lines as
they are written; `assemble_edited` says that any number of them leaves the image as it was. The two
runs of the assembler go through lines with other numbers and labels with other names, so what they
have in common is said once for each pass, of items in `Item.Agrees` and of layouts in
`Layout.Agrees`.
-/

namespace OneBus

namespace Text

variable {p : Char → Bool}

theorem fields_append {w rest : List Char} (some : w ≠ []) (clean : ∀ c ∈ w, p c = false)
    (apart : ∀ c ∈ rest.head?, p c = true) : fields p (w ++ rest) = w :: fields p rest := by
  cases rest with
  | nil =>
    rw [List.append_nil, fields, cut_clean clean, List.filter_cons_of_pos (by simpa using some)]
    rfl
  | cons s rest =>
    have ends : p s = true := apart s rfl
    have one : ∀ c ∈ [s], p c = true := by simpa using ends
    have first := fields_word some clean (List.cons_ne_nil s []) one rest
    have behind := fields_gap one rest
    rw [List.singleton_append] at first behind
    rw [first, behind]

theorem cut_intercalate {rows : List (List Char)} (some : rows ≠ [])
    (single : ∀ row ∈ rows, ∀ c ∈ row, p c = false) {e : Char} (ends : p e = true) :
    cut p ([e].intercalate rows) = rows := by
  induction rows with
  | nil => contradiction
  | cons row rest ih =>
    have clean := single row List.mem_cons_self
    cases rest with
    | nil => rw [List.intercalate_singleton, cut_clean clean]
    | cons next rest =>
      rw [List.intercalate_cons_cons, List.append_assoc, List.singleton_append,
        cut_append clean ends, ih (by simp) fun row mem => single row (List.mem_cons_of_mem _ mem)]

end Text

namespace Assembly

open Text

/-- a line of a source, as it is written -/
abbrev Row := List Char

/-- separators, and no line end among them -/
def IsGap (cs : List Char) : Prop := ∀ c ∈ cs, isSeparator c ∧ c ≠ '\n'

/-- nothing, or a comment -/
inductive IsComment : List Char → Prop
  | none : IsComment []
  | text {cs : List Char} (single : '\n' ∉ cs) : IsComment ('#' :: cs)

def IsToken (t : Token) : Prop := t ≠ [] ∧ ∀ c ∈ t, isPlain c

/-- a line with these tokens: separators in front of each and behind the last, at least one between
two of them, and at the end a comment if wanted -/
inductive Written : List Token → Row → Prop
  | ended {gap comment : List Char} (blank : IsGap gap) (last : IsComment comment) :
    Written [] (gap ++ comment)
  | token {gap row : List Char} {t : Token} {tokens : List Token} (blank : IsGap gap)
      (plain : IsToken t) (apart : ∀ c ∈ row.head?, isPlain c = false)
      (rest : Written tokens row) :
    Written (t :: tokens) (gap ++ (t ++ row))

section

variable {row gap comment : List Char} {t : Token} {tokens : List Token}

theorem IsToken.clean (plain : IsToken t) : ∀ c ∈ t, isSeparator c = false :=
  fun c mem => (isPlain_iff.1 (plain.2 c mem)).1

theorem withoutComment_hash (rest : List Char) : withoutComment ('#' :: rest) = [] := rfl

theorem withoutComment_append {cs : List Char} (none : ∀ c ∈ cs, c ≠ '#') (rest : List Char) :
    withoutComment (cs ++ rest) = cs ++ withoutComment rest :=
  List.takeWhile_append_of_pos fun c mem => bne_iff_ne.2 (none c mem)

theorem IsGap.ne_hash (blank : IsGap gap) : ∀ c ∈ gap, c ≠ '#' := by
  rintro _ mem rfl
  exact absurd (blank _ mem).1 (by decide)

theorem separator_of_apart (apart : ∀ c ∈ row.head?, isPlain c = false) :
    ∀ c ∈ (withoutComment row).head?, isSeparator c = true := by
  cases row with
  | nil => simp [withoutComment]
  | cons first rest =>
    by_cases hash : first = '#'
    · simp [hash, withoutComment_hash]
    · have ends : isPlain first = false := apart first rfl
      simpa [withoutComment, hash, isPlain] using ends

theorem Written.tokensOf (h : Written tokens row) : tokensOf row = tokens := by
  induction h with
  | @ended gap comment blank last =>
    have nothing : withoutComment comment = [] := by cases last <;> rfl
    rw [Assembly.tokensOf, withoutComment_append blank.ne_hash, nothing,
      fields_gap fun c mem => (blank c mem).1]
    rfl
  | @token gap row t tokens blank plain apart _ ih =>
    have whole : ∀ c ∈ t, c ≠ '#' := fun c mem => (isPlain_iff.1 (plain.2 c mem)).2
    rw [Assembly.tokensOf] at ih ⊢
    rw [withoutComment_append blank.ne_hash, withoutComment_append whole,
      fields_gap fun c mem => (blank c mem).1,
      fields_append plain.1 plain.clean (separator_of_apart apart), ih]

theorem Written.single (h : Written tokens row) : '\n' ∉ row := by
  induction h with
  | @ended gap comment blank last =>
    have clear : '\n' ∉ comment := by
      cases last with
      | none => simp
      | text single => simpa using single
    simpa [clear] using fun mem => (blank _ mem).2 rfl
  | @token gap row t tokens blank plain _ _ ih =>
    have token : '\n' ∉ t := fun mem => absurd (plain.clean _ mem) (by decide)
    simpa [token, ih] using fun mem => (blank _ mem).2 rfl

theorem Written.cons_gap {c : Char} (separates : isSeparator c) (single : c ≠ '\n')
    (h : Written tokens row) : Written tokens (c :: row) := by
  have longer {gap : List Char} (blank : IsGap gap) : IsGap (c :: gap) :=
    List.forall_mem_cons.2 ⟨⟨separates, single⟩, blank⟩
  cases h with
  | ended blank last => exact .ended (longer blank) last
  | token blank plain apart rest => exact .token (longer blank) plain apart rest

theorem IsGap.head (blank : IsGap gap) : ∀ c ∈ gap.head?, isPlain c = false := by
  intro c first
  simp [isPlain, (blank c (List.mem_of_head? first)).1]

theorem Written.cons_token {c d : Char} {cs : List Char} (plain : isPlain c) (next : isPlain d)
    (h : Written tokens (d :: cs)) : ∃ tokens, Written tokens (c :: d :: cs) := by
  generalize text : d :: cs = row at h
  cases h with
  | @ended gap comment blank last =>
    cases gap with
    | nil =>
      cases last with
      | none => cases text
      | text => cases text; exact absurd next (by decide)
    | cons e gap =>
      cases text
      rw [blank.head d rfl] at next
      contradiction
  | @token gap row t tokens blank whole apart rest =>
    cases gap with
    | nil =>
      have longer : IsToken (c :: t) :=
        ⟨List.cons_ne_nil c t, List.forall_mem_cons.2 ⟨plain, whole.2⟩⟩
      exact ⟨_, .token blank longer apart rest⟩
    | cons e gap =>
      cases text
      rw [blank.head d rfl] at next
      contradiction

theorem exists_written (single : '\n' ∉ row) : ∃ tokens, Written tokens row := by
  have nothing : IsGap [] := by simp [IsGap]
  induction row with
  | nil => exact ⟨[], .ended nothing .none⟩
  | cons c cs ih =>
    obtain ⟨first, others⟩ := List.ne_and_not_mem_of_not_mem_cons single
    obtain ⟨tokens, h⟩ := ih others
    by_cases separates : isSeparator c
    · exact ⟨tokens, h.cons_gap separates first.symm⟩
    by_cases hash : c = '#'
    · subst hash
      exact ⟨[], .ended nothing (.text others)⟩
    have plain : isPlain c := isPlain_iff.2 ⟨by simpa using separates, hash⟩
    have alone : IsToken [c] := ⟨by simp, by simpa using plain⟩
    by_cases apart : ∀ d ∈ cs.head?, isPlain d = false
    · exact ⟨[c] :: tokens, .token nothing alone apart h⟩
    · push Not at apart
      obtain ⟨d, begins, next⟩ := apart
      obtain ⟨rest, rfl⟩ := List.head?_eq_some_iff.1 begins
      exact h.cons_token plain (by simpa using next)

theorem written_iff : Written tokens row ↔ '\n' ∉ row ∧ tokensOf row = tokens := by
  constructor
  · exact fun h => ⟨h.single, h.tokensOf⟩
  · rintro ⟨single, rfl⟩
    obtain ⟨tokens, h⟩ := exists_written single
    rwa [h.tokensOf]

end

/-- the names of each mnemonic -/
def mnemonicAliases : List (List String) :=
  [["mov", "move"], ["lod", "load"], ["ldi", "load_i"], ["sto", "store"], ["sti", "store_i"],
   ["add"], ["sub"], ["sum"], ["dif", "difference"], ["in", "input"], ["out", "output"],
   ["hlt", "halt"], ["jmp", "jump"], ["jz", "jump_z"], ["jc", "jump_c"]]

/-- the names of each register that has one -/
def registerAliases : List (List String) :=
  [["a"], ["b"], ["acc", "accumulator"], ["adr", "addr", "address"], ["io", "buffer"],
   ["ins", "instruction"], ["pc", "program_counter"]]

/-- no name that the assembler knows is left out -/
example : (∀ entry ∈ Mnemonic.names, entry.1 ∈ mnemonicAliases.flatten) ∧
    ∀ entry ∈ registerNames, entry.1 ∈ registerAliases.flatten := by decide

/-- names of one thing, in any letter case -/
def Alias (table : List (List String)) (s t : List Char) : Prop :=
  ∃ names ∈ table, lower s ∈ names ∧ lower t ∈ names

/-- a line that says the same by other names, or an input with its register or without -/
inductive Reworded : List Token → List Token → Prop
  | mnemonic {s t : Token} {operands : List Token} (names : Alias mnemonicAliases s t) :
    Reworded (s :: operands) (t :: operands)
  | register {first s t : Token} {before after : List Token} (names : Alias registerAliases s t) :
    Reworded (first :: (before ++ ('$' :: s) :: after)) (first :: (before ++ ('$' :: t) :: after))
  | dropped {first r : Token} (input : lower first ∈ ["in", "input"])
      (register : Alias registerAliases r r) : Reworded [first, '$' :: r] [first]
  | added {first r : Token} (input : lower first ∈ ["in", "input"])
      (register : Alias registerAliases r r) : Reworded [first] [first, '$' :: r]

/-- a token under other names of the labels -/
def relabel (f : String → String) : Token → Token
  | ':' :: ':' :: name => colons ++ (f (String.ofList name)).toList
  | t => t

/-- the labels that a source mentions, and the one that sets the entry point -/
def labelsOf (rows : List Row) : Set String :=
  {name | name = Program.entryLabel ∨
    ∃ row ∈ rows, ∃ tokens, Written tokens row ∧ colons ++ name.toList ∈ tokens}

/-- other names for labels; the entry point keeps its name -/
structure Renaming (f : String → String) (names : Set String) : Prop where
  injective : Set.InjOn f names
  valid : ∀ name ∈ names, LabelName name.toList → LabelName (f name).toList
  entry : f Program.entryLabel = Program.entryLabel

/-- a change of a source that its image does not show -/
inductive Edit : List Row → List Row → Prop
  | inserted {above below : List Row} {row : Row} (blank : Written [] row) :
    Edit (above ++ below) (above ++ row :: below)
  | respaced {above below : List Row} {old new : Row} {tokens : List Token}
      (before : Written tokens old) (after : Written tokens new) :
    Edit (above ++ old :: below) (above ++ new :: below)
  | reworded {above below : List Row} {old new : Row} {said now : List Token}
      (before : Written said old) (same : Reworded said now) (after : Written now new) :
    Edit (above ++ old :: below) (above ++ new :: below)
  | renamed {f : String → String} {old new : List Row} (names : Renaming f (labelsOf old))
      (rows : List.Forall₂ (fun old new => ∃ tokens, Written tokens old ∧
        Written (tokens.map (relabel f)) new) old new) :
    Edit old new

def Operand.relabel (f : String → String) : Operand → Operand
  | label name => label (f name)
  | other => other

theorem Operand.relabel_id (o : Operand) : o.relabel id = o := by
  cases o <;> rfl

/-- an input, with a register or without -/
structure Statement.IsInput (s : Statement) : Prop where
  mnemonic : s.mnemonic = .input
  register : s.operands = [] ∨ ∃ r, s.operands = [.register r]

theorem Statement.IsInput.encode {s : Statement} (input : s.IsInput) (symbols : Symbols) :
    s.encode symbols = .ok [.of .input] := by
  rw [s.encode_eq_form, input.mnemonic]
  obtain none | ⟨r, one⟩ := input.register
  · rw [none]
    rfl
  · rw [one]
    rfl

/-- statements with the same code, if labels with their other names stand for the same addresses -/
inductive Statement.Agrees (names : Set String) (f : String → String) (s t : Statement) : Prop
  | relabelled (mnemonic : t.mnemonic = s.mnemonic)
    (operands : t.operands = s.operands.map (Operand.relabel f))
    (known : ∀ name, .label name ∈ s.operands → name ∈ names)
  | input (before : s.IsInput) (after : t.IsInput)

theorem Statement.Agrees.mnemonic {names : Set String} {f : String → String} {s t : Statement}
    (agrees : s.Agrees names f t) : t.mnemonic = s.mnemonic := by
  cases agrees with
  | relabelled mnemonic _ _ => exact mnemonic
  | input before after => exact after.mnemonic.trans before.mnemonic.symm

section

variable {names : Set String} {f : String → String} {symbols more : Symbols}
  (lookup : ∀ name ∈ names, more.lookup (f name) = symbols.lookup name)

include lookup

theorem resolve_relabel {o : Operand} (known : ∀ name, o = .label name → name ∈ names) {a : Word}
    (h : resolve symbols o = .ok a) : resolve more (o.relabel f) = .ok a := by
  cases o with
  | label name =>
    simp only [Operand.relabel, resolve, lookup name (known name rfl)]
    cases entry : symbols.lookup name with
    | some b => simpa only [resolve, entry] using h
    | none =>
      simp only [resolve, entry] at h
      cases h
  | _ => exact h

theorem addressed_relabel {op : Opcode} {o : Operand}
    (known : ∀ name, o = .label name → name ∈ names) {is : List Instruction}
    (h : addressed symbols op o = .ok is) : addressed more op (o.relabel f) = .ok is := by
  obtain ⟨a, address, rest⟩ := exists_ok_of_bind h
  rw [addressed, resolve_relabel lookup known address]
  exact rest

theorem Statement.encode_relabelled {s t : Statement} (mnemonic : t.mnemonic = s.mnemonic)
    (operands : t.operands = s.operands.map (Operand.relabel f))
    (known : ∀ name, .label name ∈ s.operands → name ∈ names) {is : List Instruction}
    (h : s.encode symbols = .ok is) : t.encode more = .ok is := by
  have only {o : Operand} (mem : o ∈ s.operands) : ∀ name, o = .label name → name ∈ names := by
    rintro name rfl
    exact known name mem
  rw [encode_eq_form] at h ⊢
  rw [mnemonic, operands]
  generalize s.mnemonic = m, s.operands = os at h only ⊢
  cases m <;> dsimp only [Mnemonic.form] at h ⊢
  case move =>
    obtain ⟨_, _, _, rfl, -, -⟩ := Form.exists_of_move _ h
    exact h
  case load | store =>
    obtain ⟨_, _, op, rfl, selected, rest⟩ := Form.exists_of_transfer _ h
    simp only [Form.transfer, List.map_cons, List.map_nil, Operand.relabel, selected]
    exact addressed_relabel lookup (only (by simp)) rest
  case loadImmediate =>
    obtain ⟨_, _, _, _, rfl, -, -, -⟩ := Form.exists_of_loadImmediate _ h
    exact h
  case storeImmediate =>
    obtain ⟨target, n, a, v, rfl, address, value, rfl⟩ := Form.exists_of_storeImmediate _ h
    change resolve more (target.relabel f) >>= _ = _
    rw [resolve_relabel lookup (only (by simp)) address]
    change immediate n >>= _ = _
    rw [value]
    rfl
  case add | subtract | jump | jumpZero | jumpCarry =>
    obtain ⟨_, rfl, rest⟩ := Form.exists_of_single _ h
    exact addressed_relabel lookup (only (by simp)) rest
  case sum | difference | output | halt =>
    obtain ⟨rfl, -⟩ := Form.of_bare _ h
    exact h
  case input =>
    obtain ⟨rfl | ⟨_, rfl⟩, -⟩ := Form.of_input _ h <;> exact h

theorem Statement.Agrees.encode {s t : Statement} (agrees : s.Agrees names f t)
    {is : List Instruction} (h : s.encode symbols = .ok is) : t.encode more = .ok is := by
  cases agrees with
  | relabelled mnemonic operands known =>
    exact encode_relabelled lookup mnemonic operands known h
  | input before after => rw [after.encode, ← before.encode symbols, h]

theorem Emits.agrees {ss ts : List Statement}
    (agrees : List.Forall₂ (Statement.Agrees names f) ss ts) {code : List Instruction}
    (h : Emits symbols ss code) : Emits more ts code := by
  induction agrees generalizing code with
  | nil =>
    cases h
    exact .nil
  | cons first _ ih =>
    cases h with
    | cons encoded others => exact .cons (first.encode lookup encoded) (ih others)

end

/-- items that do the same to a layout, but for what a label is called -/
inductive Item.Agrees (names : Set String) (f : String → String) : Item → Item → Prop
  | blank : Agrees names f .blank .blank
  | label {name : String} (mem : name ∈ names) : Agrees names f (.label name) (.label (f name))
  | statement {s t : Statement} (same : s.Agrees names f t) :
    Agrees names f (.statement s) (.statement t)

/-- the layouts of two sources that differ in what labels are called -/
structure Layout.Agrees (names : Set String) (f : String → String) (l k : Layout) : Prop where
  next : k.next = l.next
  symbols : k.symbols = l.symbols.map (Prod.map f id)
  known : ∀ entry ∈ l.symbols, entry.1 ∈ names
  statements : List.Forall₂ (Statement.Agrees names f) l.statements.toList k.statements.toList

section

variable {names : Set String} {f : String → String} (injective : Set.InjOn f names)

include injective

theorem lookup_map {symbols : Symbols} (known : ∀ entry ∈ symbols, entry.1 ∈ names) {name : String}
    (mem : name ∈ names) : (symbols.map (Prod.map f id)).lookup (f name) = symbols.lookup name := by
  induction symbols with
  | nil => rfl
  | cons entry rest ih =>
    obtain ⟨first, others⟩ := List.forall_mem_cons.1 known
    have same : (f name == f entry.1) = (name == entry.1) := by
      rw [Bool.eq_iff_iff, beq_iff_eq, beq_iff_eq]
      exact injective.eq_iff mem first
    rw [List.map_cons, Prod.map, List.lookup_cons, List.lookup_cons, same, ih others]
    rfl

namespace Layout.Agrees

variable {l k : Layout}

theorem lookup (agrees : l.Agrees names f k) : ∀ name ∈ names,
    k.symbols.lookup (f name) = l.symbols.lookup name := by
  intro name mem
  rw [agrees.symbols, lookup_map injective agrees.known mem]

theorem add (agrees : l.Agrees names f k) {i j : Item} (items : i.Agrees names f j) {l' : Layout}
    (done : l.add i = .ok l') : ∃ k', k.add j = .ok k' ∧ l'.Agrees names f k' := by
  cases items with
  | blank =>
    cases done
    exact ⟨k, rfl, agrees⟩
  | @label name mem =>
    rw [Layout.add] at done
    split at done
    · cases done
    · next fresh =>
      cases done
      rw [← agrees.lookup injective name mem] at fresh
      refine ⟨_, if_neg fresh, agrees.next, ?_, ?_, agrees.statements⟩
      · rw [agrees.symbols, agrees.next]
        rfl
      · exact List.forall_mem_cons.2 ⟨mem, agrees.known⟩
  | @statement s t same =>
    cases done
    refine ⟨_, rfl, ?_, agrees.symbols, agrees.known, ?_⟩
    · dsimp only
      rw [agrees.next, t.words_eq, s.words_eq, same.mnemonic]
    · simp only [Array.toList_push]
      exact List.rel_append agrees.statements (.cons same .nil)

end Layout.Agrees

end

/-- tokens of lines that stand for items which agree, whatever the numbers of the lines -/
def Agree [Build] (names : Set String) (f : String → String) (said now : List Token) : Prop :=
  ∀ n k i, Line.Reads ⟨n, said⟩ i → ∃ j, Line.Reads ⟨k, now⟩ j ∧ i.Agrees names f j

/-- the lines of a source, one by one, with further blank lines between them -/
inductive Aligned [Build] (names : Set String) (f : String → String) : List Row → List Row → Prop
  | nil : Aligned names f [] []
  | row {said now : Row} {old new : List Row} (agree : Agree names f (tokensOf said) (tokensOf now))
    (rest : Aligned names f old new) : Aligned names f (said :: old) (now :: new)
  | blank {row : Row} {old new : List Row} (blank : tokensOf row = [])
    (rest : Aligned names f old new) : Aligned names f old (row :: new)

/-- the lines with their numbers -/
def rowLines (rows : List Row) (first : Nat) : List Line :=
  (rows.zipIdx first).map fun (cs, i) => ⟨i, tokensOf cs⟩

/-- the image of a source, given by its lines -/
def Makes [Build] (rows : List Row) (image : Image) : Prop :=
  ∃ l p, Layout.ofLines (rowLines rows 1) = .ok l ∧ Program.ofLayout l = .ok p ∧ p.image = image

theorem addLine_eq_ok_iff [Build] {l l' : Layout} {line : Line} :
    l.addLine line = .ok l' ↔ ∃ i, line.Reads i ∧ l.add i = .ok l' := by
  simp only [Layout.addLine, mapError_eq_ok_iff, ← Line.item_eq_ok_iff]
  cases line.item <;> simp [bind, Except.bind]

section

variable {names : Set String} {f : String → String} {old new : List Row}

theorem Aligned.foldlM [Build] (injective : Set.InjOn f names) (aligned : Aligned names f old new)
    {l k l' : Layout} (agrees : l.Agrees names f k) {n : Nat} (first : Nat)
    (done : (rowLines old n).foldlM Layout.addLine l = .ok l') :
    ∃ k', (rowLines new first).foldlM Layout.addLine k = .ok k' ∧ l'.Agrees names f k' := by
  induction aligned generalizing l k n first with
  | nil =>
    cases done
    exact ⟨k, rfl, agrees⟩
  | @row said now old new agree _ ih =>
    obtain ⟨m, step, done⟩ := exists_ok_of_bind (done : l.addLine ⟨n, tokensOf said⟩ >>= _ = _)
    obtain ⟨i, reads, added⟩ := addLine_eq_ok_iff.1 step
    obtain ⟨j, reads, same⟩ := agree n first i reads
    obtain ⟨m', added, agrees⟩ := agrees.add injective same added
    obtain ⟨k', rest, agrees⟩ := ih agrees (first + 1) done
    have step : k.addLine ⟨first, tokensOf now⟩ = .ok m' := addLine_eq_ok_iff.2 ⟨j, reads, added⟩
    refine ⟨k', ?_, agrees⟩
    change k.addLine ⟨first, tokensOf now⟩ >>= _ = _
    rw [step]
    exact rest
  | @blank row old new blank _ ih =>
    obtain ⟨k', rest, agrees⟩ := ih agrees (first + 1) done
    have step : k.addLine ⟨first, tokensOf row⟩ = .ok k :=
      addLine_eq_ok_iff.2 ⟨_, .blank blank, rfl⟩
    refine ⟨k', ?_, agrees⟩
    change k.addLine ⟨first, tokensOf row⟩ >>= _ = _
    rw [step]
    exact rest

/-- both passes get through the one source as they do through the other -/
theorem Aligned.makes [Build] (injective : Set.InjOn f names) (entry : Program.entryLabel ∈ names)
    (fixed : f Program.entryLabel = Program.entryLabel) (aligned : Aligned names f old new)
    {image : Image} (made : Makes old image) : Makes new image := by
  obtain ⟨l, p, first, second, rfl⟩ := made
  have fresh : Layout.Agrees names f {} {} := ⟨rfl, rfl, by simp, .nil⟩
  obtain ⟨k, first, agrees⟩ := aligned.foldlM injective fresh 1 first
  obtain ⟨symbols, emits⟩ := Program.ofLayout_eq_ok_iff.1 second
  have code := emits.agrees (agrees.lookup injective) agrees.statements
  refine ⟨k, ⟨k.symbols, p.body⟩, first, Program.ofLayout_eq_ok_iff.2 ⟨rfl, code⟩, ?_⟩
  have same := agrees.lookup injective Program.entryLabel entry
  rw [fixed, ← symbols] at same
  rw [Program.image, Program.image, Program.entry, Program.entry, same]

end

section

variable {s t : List Char}

theorem ofToken?_of_alias (names : Alias mnemonicAliases s t) :
    ∃ m, Mnemonic.ofToken? s = some m ∧ Mnemonic.ofToken? t = some m := by
  have all : ∀ row ∈ mnemonicAliases, ∀ x ∈ row, ∀ y ∈ row,
      (Mnemonic.names.lookup x).isSome ∧ Mnemonic.names.lookup y = Mnemonic.names.lookup x := by
    decide
  obtain ⟨row, mem, old, new⟩ := names
  obtain ⟨some, same⟩ := all row mem _ old _ new
  obtain ⟨m, known⟩ := Option.isSome_iff_exists.1 some
  exact ⟨m, known, same.trans known⟩

theorem ofToken?_input (input : lower s ∈ ["in", "input"]) :
    Mnemonic.ofToken? s = some .input := by
  have all : ∀ x ∈ ["in", "input"], Mnemonic.names.lookup x = some .input := by decide
  exact all _ input

theorem ofToken_register [Build] {r : Register} (known : registerNames.lookup (lower s) = some r) :
    Operand.ofToken ('$' :: s) = .ok (.register r) := by
  unfold Operand.ofToken
  split
  · next name eq =>
    cases eq
    simp only [known]
  all_goals simp_all

theorem ofToken_of_alias [Build] (names : Alias registerAliases s t) :
    ∃ r, Operand.ofToken ('$' :: s) = .ok (.register r) ∧
      Operand.ofToken ('$' :: t) = .ok (.register r) := by
  have all : ∀ row ∈ registerAliases, ∀ x ∈ row, ∀ y ∈ row,
      (registerNames.lookup x).isSome ∧ registerNames.lookup y = registerNames.lookup x := by
    decide
  obtain ⟨row, mem, old, new⟩ := names
  obtain ⟨some, same⟩ := all row mem _ old _ new
  obtain ⟨r, known⟩ := Option.isSome_iff_exists.1 some
  exact ⟨r, ofToken_register known, ofToken_register (same.trans known)⟩

end

section

variable {f : String → String} {t : Token}

theorem relabel_colons (f : String → String) (name : List Char) :
    relabel f (colons ++ name) = colons ++ (f (String.ofList name)).toList := rfl

theorem relabel_plain (plain : ¬ colons <+: t) : relabel f t = t := by
  unfold relabel
  split
  · next name => exact absurd ⟨name, rfl⟩ plain
  · rfl

theorem ofToken_colons [Build] {name : List Char} (valid : LabelName name) :
    Operand.ofToken (colons ++ name) = .ok (.label (String.ofList name)) := by
  change (labelName name).map Operand.label = _
  rw [labelName_ok valid]
  rfl

theorem ofToken_eq_ok [Build] {o : Operand} (h : Operand.ofToken t = .ok o) :
    (∃ name, t = colons ++ name ∧ LabelName name ∧ o = .label (String.ofList name)) ∨
      ¬ colons <+: t ∧ ∀ name, o ≠ .label name := by
  by_cases named : colons <+: t
  · obtain ⟨name, rfl⟩ := named
    refine .inl ⟨name, rfl, ?_⟩
    by_cases valid : LabelName name
    · rw [ofToken_colons valid] at h
      cases h
      exact ⟨valid, rfl⟩
    · change (labelName name).map Operand.label = _ at h
      rw [labelName_error valid] at h
      cases h
  · refine .inr ⟨named, ?_⟩
    rintro name rfl
    unfold Operand.ofToken at h
    split at h
    · split at h <;> cases h
    · split at h
      · split at h <;> cases h
      · cases h
    · next rest => exact named ⟨rest, rfl⟩
    · split at h <;> cases h

theorem Operand.relabel_other {o : Operand} (other : ∀ name, o ≠ .label name) :
    o.relabel f = o := by
  cases o with
  | label name => exact absurd rfl (other name)
  | _ => rfl

theorem ofToken_relabel [Build] {names : Set String}
    (valid : ∀ name ∈ names, LabelName name.toList → LabelName (f name).toList)
    (known : ∀ name : String, t = colons ++ name.toList → name ∈ names) {o : Operand}
    (h : Operand.ofToken t = .ok o) : Operand.ofToken (relabel f t) = .ok (o.relabel f) := by
  rcases ofToken_eq_ok h with ⟨name, rfl, fine, rfl⟩ | ⟨plain, other⟩
  · have mem : String.ofList name ∈ names := known _ (by rw [String.toList_ofList])
    rw [relabel_colons, ofToken_colons (valid _ mem (by rwa [String.toList_ofList])),
      String.ofList_toList]
    rfl
  · rw [relabel_plain plain, h, Operand.relabel_other other]

theorem label_mem_of_read [Build] {rest : List Token} {operands : List Operand} {name : String}
    (read : List.Forall₂ (fun t o => Operand.ofToken t = .ok o) rest operands)
    (used : .label name ∈ operands) : colons ++ name.toList ∈ rest := by
  induction read with
  | nil => simp at used
  | @cons t o rest operands first _ ih =>
    rcases List.mem_cons.1 used with rfl | used
    · rcases ofToken_eq_ok first with ⟨chars, rfl, -, same⟩ | ⟨-, other⟩
      · cases same
        simp
      · exact absurd rfl (other name)
    · exact List.mem_cons_of_mem _ (ih used)

end

section

variable {names : Set String} {f : String → String} {tokens : List Token}

theorem read_relabel [Build]
    (valid : ∀ name ∈ names, LabelName name.toList → LabelName (f name).toList)
    {rest : List Token} {operands : List Operand}
    (known : ∀ name : String, colons ++ name.toList ∈ rest → name ∈ names)
    (read : List.Forall₂ (fun t o => Operand.ofToken t = .ok o) rest operands) :
    List.Forall₂ (fun t o => Operand.ofToken t = .ok o) (rest.map (relabel f))
      (operands.map (Operand.relabel f)) := by
  induction read with
  | nil => exact .nil
  | @cons t o rest operands first _ ih =>
    have here : ∀ name : String, t = colons ++ name.toList → name ∈ names := by
      rintro name rfl
      exact known name List.mem_cons_self
    exact .cons (ofToken_relabel valid here first) (ih fun name mem =>
      known name (List.mem_cons_of_mem _ mem))

theorem agree_relabel [Build]
    (valid : ∀ name ∈ names, LabelName name.toList → LabelName (f name).toList)
    (known : ∀ name : String, colons ++ name.toList ∈ tokens → name ∈ names) :
    Agree names f tokens (tokens.map (relabel f)) := by
  intro n k i reads
  cases reads with
  | blank blank =>
    dsimp only at blank
    subst blank
    exact ⟨_, .blank rfl, .blank⟩
  | @label name one fine =>
    dsimp only at one
    subst one
    have mem : String.ofList name ∈ names := known _ (by simp)
    have whole := valid _ mem (by rwa [String.toList_ofList])
    refine ⟨_, .label rfl whole, ?_⟩
    rw [String.ofList_toList]
    exact .label mem
  | @statement first rest m operands split mnemonic read =>
    dsimp only at split
    subst split
    have stays : relabel f first = first := relabel_plain (plain_of_known mnemonic)
    have behind (name : String) (mem : colons ++ name.toList ∈ rest) : name ∈ names :=
      known name (List.mem_cons_of_mem _ mem)
    have renamed := read_relabel valid behind read
    refine ⟨_, .statement ?_ mnemonic renamed, .statement (.relabelled rfl rfl ?_)⟩
    · rw [List.map_cons, stays]
    · exact fun name used => behind name (label_mem_of_read read used)

omit names f in
theorem map_relabel_id (operands : List Operand) :
    operands.map (Operand.relabel id) = operands := by
  rw [funext Operand.relabel_id, List.map_id']

/-- statements that differ in their line and their spelling only -/
theorem agrees_of_operands {s t : Statement} (mnemonic : t.mnemonic = s.mnemonic)
    (operands : t.operands = s.operands) : s.Agrees Set.univ id t :=
  .relabelled mnemonic (by rw [operands, map_relabel_id]) fun _ _ => trivial

theorem agree_refl [Build] (tokens : List Token) : Agree Set.univ id tokens tokens := by
  intro n k i reads
  cases reads with
  | blank blank => exact ⟨_, .blank blank, .blank⟩
  | label one fine => exact ⟨_, .label one fine, .label trivial⟩
  | statement split mnemonic read =>
    exact ⟨_, @Line.Reads.statement _ ⟨k, tokens⟩ _ _ _ _ split mnemonic read,
      .statement (agrees_of_operands rfl rfl)⟩

theorem reads_statement [Build] {number : Nat} {first : Token} {rest : List Token} {m : Mnemonic}
    {i : Item} (known : Mnemonic.ofToken? first = some m)
    (reads : Line.Reads ⟨number, first :: rest⟩ i) :
    ∃ operands, List.Forall₂ (fun t o => Operand.ofToken t = .ok o) rest operands ∧
      i = .statement ⟨number, lower first, operands, Mnemonic.known_of_ofToken? known⟩ := by
  cases reads with
  | blank blank => cases blank
  | @label name one fine =>
    cases one
    exact absurd ⟨name, rfl⟩ (plain_of_known known)
  | statement split mnemonic read =>
    cases split
    cases known.symm.trans mnemonic
    exact ⟨_, read, rfl⟩

theorem read_replace [Build] {before after : List Token} {s t : Token} {operands : List Operand}
    (same : Operand.ofToken t = Operand.ofToken s)
    (read : List.Forall₂ (fun t o => Operand.ofToken t = .ok o) (before ++ s :: after) operands) :
    List.Forall₂ (fun t o => Operand.ofToken t = .ok o) (before ++ t :: after) operands := by
  rw [← mapM_eq_ok_iff] at read ⊢
  rw [List.mapM_append, List.mapM_cons] at read ⊢
  rwa [same]

theorem Reworded.agree [Build] {said now : List Token} (same : Reworded said now) :
    Agree Set.univ id said now := by
  intro n k i reads
  cases same with
  | @mnemonic s t rest names =>
    obtain ⟨m, old, new⟩ := ofToken?_of_alias names
    obtain ⟨operands, read, rfl⟩ := reads_statement old reads
    refine ⟨_, .statement rfl new read, .statement (agrees_of_operands ?_ rfl)⟩
    rw [Statement.mnemonic_ofToken? new, Statement.mnemonic_ofToken? old]
  | @register first s t before after names =>
    obtain ⟨r, old, new⟩ := ofToken_of_alias names
    cases reads with
    | blank blank => cases blank
    | label one => simp at one
    | statement split mnemonic read =>
      cases split
      exact ⟨_, .statement rfl mnemonic (read_replace (new.trans old.symm) read),
        .statement (agrees_of_operands rfl rfl)⟩
  | @dropped first r input register =>
    obtain ⟨r, reg, -⟩ := ofToken_of_alias register
    obtain ⟨operands, read, rfl⟩ := reads_statement (ofToken?_input input) reads
    rw [← mapM_eq_ok_iff, List.mapM_cons, reg] at read
    cases read
    exact ⟨_, .statement rfl (ofToken?_input input) .nil,
      .statement (.input ⟨Statement.mnemonic_ofToken? (ofToken?_input input) _ _, .inr ⟨r, rfl⟩⟩
        ⟨Statement.mnemonic_ofToken? (ofToken?_input input) _ _, .inl rfl⟩)⟩
  | @added first r input register =>
    obtain ⟨r, reg, -⟩ := ofToken_of_alias register
    obtain ⟨operands, read, rfl⟩ := reads_statement (ofToken?_input input) reads
    cases read
    exact ⟨_, .statement rfl (ofToken?_input input) (.cons reg .nil),
      .statement (.input ⟨Statement.mnemonic_ofToken? (ofToken?_input input) _ _, .inl rfl⟩
        ⟨Statement.mnemonic_ofToken? (ofToken?_input input) _ _, .inr ⟨r, rfl⟩⟩)⟩

end

namespace Aligned

theorem refl [Build] (rows : List Row) : Aligned Set.univ id rows rows := by
  induction rows with
  | nil => exact .nil
  | cons row rest ih => exact .row (agree_refl _) ih

theorem under [Build] {old new : List Row} (above : List Row) (rest : Aligned Set.univ id old new) :
    Aligned Set.univ id (above ++ old) (above ++ new) := by
  induction above with
  | nil => exact rest
  | cons row above ih => exact .row (agree_refl _) ih

theorem of_relabel [Build] {names : Set String} {f : String → String} {old new : List Row}
    (valid : ∀ name ∈ names, LabelName name.toList → LabelName (f name).toList)
    (known : ∀ row ∈ old, ∀ tokens, Written tokens row → ∀ name : String,
      colons ++ name.toList ∈ tokens → name ∈ names)
    (rows : List.Forall₂ (fun old new => ∃ tokens, Written tokens old ∧
      Written (tokens.map (relabel f)) new) old new) : Aligned names f old new := by
  induction rows with
  | nil => exact .nil
  | @cons row row' old new first _ ih =>
    obtain ⟨here, others⟩ := List.forall_mem_cons.1 known
    obtain ⟨tokens, before, after⟩ := first
    refine .row ?_ (ih others)
    rw [before.tokensOf, after.tokensOf]
    exact agree_relabel valid (here tokens before)

end Aligned

theorem Edit.makes [Build] {old new : List Row} (edit : Edit old new) {image : Image}
    (made : Makes old image) : Makes new image := by
  have one (aligned : Aligned Set.univ id old new) : Makes new image :=
    aligned.makes (Set.injOn_id _) (Set.mem_univ _) rfl made
  cases edit with
  | @inserted above _ _ blank => exact one (.under above (.blank blank.tokensOf (.refl _)))
  | @respaced above _ _ _ _ before after =>
    refine one (.under above (.row ?_ (.refl _)))
    rw [before.tokensOf, after.tokensOf]
    exact agree_refl _
  | @reworded above _ _ _ _ _ before same after =>
    refine one (.under above (.row ?_ (.refl _)))
    rw [before.tokensOf, after.tokensOf]
    exact same.agree
  | renamed names rows =>
    have aligned := Aligned.of_relabel names.valid
      (fun row mem tokens written name used => .inr ⟨row, mem, tokens, written, used⟩) rows
    exact aligned.makes names.injective (.inl rfl) names.entry made

theorem makes_of_edits [Build] {old new : List Row} (edits : Relation.ReflTransGen Edit old new)
    {image : Image} (made : Makes old image) : Makes new image := by
  induction edits with
  | refl => exact made
  | tail _ last ih => exact last.makes ih

/-- a text of these lines -/
structure IsText (rows : List Row) (source : String) : Prop where
  some : rows ≠ []
  single : ∀ row ∈ rows, '\n' ∉ row
  text : source.toList = ['\n'].intercalate rows

theorem IsText.makes_iff [Build] {rows : List Row} {source : String} (h : IsText rows source)
    {image : Image} : Makes rows image ↔ assemble source = .ok image := by
  have cut : cut (· == '\n') (['\n'].intercalate rows) = rows :=
    cut_intercalate h.some (fun row mem => clean_of_single (h.single row mem)) rfl
  rw [assemble_eq_ok_iff, linesOf, h.text, cut]
  rfl

theorem exists_isText (source : String) : ∃ rows, IsText rows source := by
  suffices h : ∀ cs : List Char, ∃ row rest, (∀ r ∈ row :: rest, '\n' ∉ r) ∧
      cs = ['\n'].intercalate (row :: rest) by
    obtain ⟨row, rest, single, text⟩ := h source.toList
    exact ⟨row :: rest, List.cons_ne_nil row rest, single, text⟩
  intro cs
  induction cs with
  | nil => exact ⟨[], [], by simp, rfl⟩
  | cons c cs ih =>
    obtain ⟨row, rest, single, rfl⟩ := ih
    by_cases ends : c = '\n'
    · refine ⟨[], row :: rest, List.forall_mem_cons.2 ⟨by simp, single⟩, ?_⟩
      rw [List.intercalate_cons_cons, ends]
      rfl
    · obtain ⟨first, others⟩ := List.forall_mem_cons.1 single
      have longer : '\n' ∉ c :: row := by simp [first, Ne.symm ends]
      refine ⟨c :: row, rest, List.forall_mem_cons.2 ⟨longer, others⟩, ?_⟩
      cases rest with
      | nil => rw [List.intercalate_singleton, List.intercalate_singleton]
      | cons next rest => rw [List.intercalate_cons_cons, List.intercalate_cons_cons]; rfl

/-- no number of changes shows in the image of a source -/
theorem assemble_edited [Build] (source : String) : (∃ old, IsText old source) ∧
    ∀ old new edited image, IsText old source → IsText new edited →
      Relation.ReflTransGen Edit old new → assemble source = .ok image →
      assemble edited = .ok image := by
  refine ⟨exists_isText source, fun old new edited image before after edits done => ?_⟩
  exact after.makes_iff.1 (makes_of_edits edits (before.makes_iff.2 done))

/-- an input in another case and with a register, a longer name, a comment, and a label renamed -/
theorem assemble_edited_input :
    let old : List Row := ["in", "::main", "mov $io $a", "::a", "jmp ::a"].map String.toList
    let new : List Row := ["\tIN,, $pc#!", "::main", "mov $Buffer $a", "# again", "::again",
      "jmp ::again"].map String.toList
    let image : Image := ⟨4, [.of .input, .of (.move ⟨.io, .a, by decide⟩), .of .jump 6]⟩
    Relation.ReflTransGen Edit old new ∧
      assemble "in\n::main\nmov $io $a\n::a\njmp ::a" = .ok image ∧
      assemble "\tIN,, $pc#!\n::main\nmov $Buffer $a\n# again\n::again\njmp ::again" =
        .ok image := by
  intro old new image
  have written {tokens : List Token} {row : Row} (single : row.all (· != '\n'))
      (tokensOf : tokensOf row = tokens) : Written tokens row := by
    refine written_iff.2 ⟨fun mem => ?_, tokensOf⟩
    simpa using List.all_eq_true.1 single _ mem
  have edits : Relation.ReflTransGen Edit old new := by
    refine .head (@Edit.reworded [] _ _ "IN".toList _ _ (written rfl rfl)
      (.mnemonic (t := "IN".toList) ⟨["in", "input"], by decide, by decide, by decide⟩)
      (written rfl rfl)) ?_
    refine .head (@Edit.reworded [] _ _ "\tIN,, $pc#!".toList _ _ (written rfl rfl)
      (.added (r := "pc".toList) (by decide)
        ⟨["pc", "program_counter"], by decide, by decide, by decide⟩) (written rfl rfl)) ?_
    refine .head (@Edit.reworded (["\tIN,, $pc#!", "::main"].map String.toList) _ _
      "mov $Buffer $a".toList _ _ (written rfl rfl)
      (@Reworded.register "mov".toList "io".toList "Buffer".toList [] ["$a".toList]
        ⟨["io", "buffer"], by decide, by decide, by decide⟩) (written rfl rfl)) ?_
    refine .head (@Edit.inserted
      (["\tIN,, $pc#!", "::main", "mov $Buffer $a"].map String.toList) _ "# again".toList
      (written rfl rfl)) ?_
    refine .single (.renamed (f := Equiv.swap "a" "again") ⟨?_, ?_, by decide⟩ ?_)
    · exact (Equiv.injective _).injOn
    · intro name _ valid
      rw [Equiv.swap_apply_def]
      split
      · exact ⟨by decide, List.all_eq_true.1 (by decide)⟩
      · split
        · exact ⟨by decide, List.all_eq_true.1 (by decide)⟩
        · exact valid
    · have renamed {row row' : Row} (single : row.all (· != '\n')) (single' : row'.all (· != '\n'))
          (same : tokensOf row' = (tokensOf row).map (relabel (Equiv.swap "a" "again"))) :
          ∃ tokens, Written tokens row ∧
            Written (tokens.map (relabel (Equiv.swap "a" "again"))) row' :=
        ⟨_, written single rfl, written single' same⟩
      exact .cons (renamed rfl rfl rfl) (.cons (renamed rfl rfl rfl) (.cons (renamed rfl rfl rfl)
        (.cons (renamed rfl rfl rfl) (.cons (renamed rfl rfl rfl)
          (.cons (renamed rfl rfl rfl) .nil)))))
  have before : IsText old "in\n::main\nmov $io $a\n::a\njmp ::a" :=
    ⟨by decide, by decide, rfl⟩
  have after : IsText new
      "\tIN,, $pc#!\n::main\nmov $Buffer $a\n# again\n::again\njmp ::again" :=
    ⟨by decide, by decide, rfl⟩
  have done : assemble "in\n::main\nmov $io $a\n::a\njmp ::a" = .ok image := by rfl
  exact ⟨edits, done, (assemble_edited _).2 old new _ image before after edits done⟩

end Assembly
end OneBus
