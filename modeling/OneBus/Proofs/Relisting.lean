import Mathlib.Data.List.DropRight
import OneBus.Proofs.Addresses
import OneBus.Proofs.Reassembly

/-!
Listing and assembling again what a source has been assembled to. Each statement but an immediate
store becomes one instruction that the listing can name, with no operand that it would leave out, so
all that is listed comes back. What is not listed does not: all-zero instructions at the end, which
a move from `A` to `B` is as well as padding, and an entry label with no listed instruction behind
it.
-/

namespace OneBus

open Assembly

namespace Assembly.Statement

theorem exists_of_addressed {symbols : Symbols} {op : Opcode} {target : Operand}
    {is : List Instruction} (h : addressed symbols op target = .ok is) : ∃ a, is = [.of op a] := by
  obtain ⟨a, -, same⟩ := exists_ok_of_bind h
  cases same
  exact ⟨a, rfl⟩

theorem exists_of_select {f : GeneralRegister → Opcode} {r : Register} {op : Opcode}
    (h : select (fun s => (GeneralRegister.ofRegister? s).map f) r = .ok op) : ∃ g, op = f g := by
  rw [select] at h
  cases known : GeneralRegister.ofRegister? r with
  | none =>
    rw [known] at h
    cases h
  | some g =>
    rw [known] at h
    cases h
    exact ⟨g, rfl⟩

theorem exists_of_moveOf? {source target : Register} {op : Opcode}
    (h : Opcode.moveOf? source target = some op) : ∃ ends, op = .move ends := by
  obtain ⟨s, -, h⟩ := Option.bind_eq_some_iff.1 h
  obtain ⟨t, -, h⟩ := Option.bind_eq_some_iff.1 h
  rw [Opcode.move?] at h
  split at h
  · cases h
    exact ⟨_, rfl⟩
  · cases h

/-- the code of a statement that is no immediate store: one instruction of its mnemonic, with an
operand only where one is listed -/
theorem encode_single {symbols : Symbols} {s : Statement} {is : List Instruction}
    (encoded : s.encode symbols = .ok is) (plain : s.mnemonic ≠ .storeImmediate) :
    ∃ op x, is = [.of op x] ∧ op.mnemonic? = some s.mnemonic ∧ (op.listsOperand ∨ x = 0) := by
  rw [encode_eq_form] at encoded
  generalize s.mnemonic = mnemonic at encoded plain ⊢
  cases mnemonic <;> dsimp only [Mnemonic.form] at encoded
  case move =>
    obtain ⟨_, _, op, -, moves, rfl⟩ := Form.exists_of_move _ encoded
    obtain ⟨ends, rfl⟩ := exists_of_moveOf? moves
    exact ⟨_, 0, rfl, rfl, .inr rfl⟩
  case load | store =>
    obtain ⟨_, _, op, -, selected, addressed⟩ := Form.exists_of_transfer _ encoded
    obtain ⟨g, rfl⟩ := exists_of_select selected
    obtain ⟨a, rfl⟩ := exists_of_addressed addressed
    exact ⟨_, a, rfl, rfl, .inl rfl⟩
  case loadImmediate =>
    obtain ⟨_, _, op, v, -, selected, -, rfl⟩ := Form.exists_of_loadImmediate _ encoded
    obtain ⟨g, rfl⟩ := exists_of_select selected
    exact ⟨_, v, rfl, rfl, .inl rfl⟩
  case storeImmediate => contradiction
  case add | subtract | jump | jumpZero | jumpCarry =>
    obtain ⟨_, -, addressed⟩ := Form.exists_of_single _ encoded
    obtain ⟨a, rfl⟩ := exists_of_addressed addressed
    exact ⟨_, a, rfl, rfl, .inl rfl⟩
  case sum | difference | output | halt =>
    obtain ⟨-, rfl⟩ := Form.of_bare _ encoded
    exact ⟨_, 0, rfl, rfl, .inr rfl⟩
  case input =>
    obtain ⟨-, rfl⟩ := Form.of_input _ encoded
    exact ⟨_, 0, rfl, rfl, .inr rfl⟩

end Assembly.Statement

theorem Instruction.nameable_of {op : Opcode} {x : Word} {mnemonic : Mnemonic}
    (named : op.mnemonic? = some mnemonic) : (Instruction.of op x).Nameable :=
  (nameable_iff _).2 ⟨mnemonic, by rw [mnemonic?, decode?, of, Opcode.ofId?_id]; exact named⟩

theorem Instruction.normal_of {op : Opcode} {x : Word} (kept : op.listsOperand ∨ x = 0) :
    (Instruction.of op x).normal = .of op x := by
  have decoded : (Instruction.of op x).decode? = some op := op.ofId?_id
  rw [normal, decoded]
  rcases kept with lists | rfl
  · exact if_pos lists
  · exact ite_self _

namespace Assembly

variable {symbols : Symbols} {ss : List Statement} {code : List Instruction}

/-- without immediate stores, all code can be listed, and nothing of it is lost -/
theorem Emits.listable (h : Emits symbols ss code)
    (plain : ∀ s ∈ ss, s.mnemonic ≠ .storeImmediate) :
    ∀ i ∈ code, i.Nameable ∧ i.normal = i := by
  induction h with
  | nil => simp
  | cons first _ ih =>
    obtain ⟨here, others⟩ := List.forall_mem_cons.1 plain
    intro i mem
    rcases List.mem_append.1 mem with mem | mem
    · obtain ⟨op, x, rfl, named, kept⟩ := Statement.encode_single first here
      obtain rfl := List.mem_singleton.1 mem
      exact ⟨Instruction.nameable_of named, Instruction.normal_of kept⟩
    · exact ih others i mem

end Assembly

namespace Image

theorem trimmed_prefix (image : Image) : image.trimmed <+: image.body :=
  List.rdropWhile_prefix (fun i : Instruction => i == {}) _

theorem trimmed_eq_body_iff {image : Image} :
    image.trimmed = image.body ↔ image.body.getLast? ≠ some {} := by
  have cut : image.trimmed = image.body.rdropWhile (· == {}) := rfl
  rw [cut, List.rdropWhile_eq_self_iff]
  rcases image.body.eq_nil_or_concat with empty | ⟨front, i, split⟩
  · simp [empty]
  · simp [split]

end Image

namespace Assembly

theorem span_lt_iff {before ss : List Statement} (front : before <+: ss) :
    span before < span ss ↔ before ≠ ss := by
  obtain ⟨after, rfl⟩ := front
  rw [span_append, Ne, List.self_eq_append_right]
  cases after with
  | nil => simp [span]
  | cons s after =>
    have some := s.words_pos
    simp only [span, reduceCtorEq, not_false_eq_true, iff_true]
    omega

section

variable {source : String} {image : Image}

theorem entry_of_labelled [Build] (assembled : assemble source = .ok image) {above : List Line}
    (labelled : Labelled (linesOf source) above Program.entryLabel) :
    ∃ n ≤ image.body.length, image.entry = Image.addressOf n ∧
      (n < image.body.length ↔ statementsOf above ≠ statementsOf (linesOf source)) := by
  obtain ⟨l, p, first, second, rfl⟩ := assemble_eq_ok_iff.1 assembled
  have surveyed := (clear_of_ofLines first).2
  obtain ⟨symbols, emits⟩ := Program.ofLayout_eq_ok_iff.1 second
  rw [surveyed.statements] at emits
  have length : p.body.length = span (statementsOf (linesOf source)) := emits.length
  have known := (surveyed.symbols Program.entryLabel _).2 ⟨above, labelled, rfl⟩
  obtain ⟨line, place, -⟩ := labelled
  have front := statementsOf_prefix ((List.prefix_append above [line]).trans place)
  refine ⟨span (statementsOf above), ?_, ?_, ?_⟩
  · change _ ≤ p.body.length
    obtain ⟨after, split⟩ := front
    rw [length, ← split, span_append]
    omega
  · change p.entry = _
    rw [Program.entry, symbols, known, Option.getD_some]
  · change _ < p.body.length ↔ _
    rw [length]
    exact span_lt_iff front

theorem entry_of_unlabelled [Build] (assembled : assemble source = .ok image)
    (none : ∀ above, ¬ Labelled (linesOf source) above Program.entryLabel) : image.entry = 0 := by
  obtain ⟨l, p, first, second, rfl⟩ := assemble_eq_ok_iff.1 assembled
  obtain ⟨symbols, -⟩ := Program.ofLayout_eq_ok_iff.1 second
  change p.entry = 0
  rw [Program.entry, symbols]
  cases known : l.symbols.lookup Program.entryLabel with
  | none => rfl
  | some a =>
    obtain ⟨above, labelled, -⟩ := ((clear_of_ofLines first).2.symbols _ _).1 known
    exact absurd labelled (none above)

theorem entered_iff [Build] (assembled : assemble source = .ok image)
    (small : image.body.length ≤ 32766) :
    (if image.Entered image.body.length then image.entry else 0) = image.entry ↔
      ∀ above, Labelled (linesOf source) above Program.entryLabel →
        statementsOf above ≠ statementsOf (linesOf source) := by
  have entered {above : List Line} (labelled : Labelled (linesOf source) above Program.entryLabel) :
      image.entry ≠ 0 ∧ (image.Entered image.body.length ↔
        statementsOf above ≠ statementsOf (linesOf source)) := by
    obtain ⟨n, bound, entry, before⟩ := entry_of_labelled assembled labelled
    rw [← before]
    have inside : image.entry ≠ 0 := by
      rw [entry, Ne, addressOf_eq_zero_iff]
      omega
    refine ⟨inside, ?_, fun below => ⟨n, below, entry.symm⟩⟩
    rintro ⟨i, below, here⟩
    obtain rfl := Image.addressOf_inj (by omega) (by omega) (here.trans entry)
    exact below
  constructor
  · intro kept above labelled
    obtain ⟨some, same⟩ := entered labelled
    refine same.1 ?_
    by_contra outside
    rw [if_neg outside] at kept
    exact some kept.symm
  · intro before
    by_cases labelled : ∃ above, Labelled (linesOf source) above Program.entryLabel
    · obtain ⟨above, labelled⟩ := labelled
      exact if_pos ((entered labelled).2.2 (before above labelled))
    · have zero := entry_of_unlabelled assembled (not_exists.1 labelled)
      split
      · rfl
      · exact zero.symm

/-- what a source without immediate stores assembles to can be listed as a whole, and listing and
assembling it again gives it back unless its last instruction is all zero, which the listing leaves
out as padding, or the entry label stands behind the last instruction, where it is not listed -/
theorem assemble_relisted [Build] (assembled : assemble source = .ok image)
    (plain : ∀ s ∈ statementsOf (linesOf source), s.mnemonic ≠ .storeImmediate)
    (small : image.body.length ≤ 32766) :
    (∀ i ∈ image.body, i.Nameable ∧ i.normal = i) ∧
      assemble image.listing =
        .ok ⟨if ∃ i < image.trimmed.length, Image.addressOf i = image.entry then image.entry
          else 0, image.trimmed⟩ ∧
      (assemble image.listing = .ok image ↔ image.body.getLast? ≠ some {} ∧
        ∀ above, Labelled (linesOf source) above Program.entryLabel →
          statementsOf above ≠ statementsOf (linesOf source)) := by
  have listable : ∀ i ∈ image.body, i.Nameable ∧ i.normal = i := by
    obtain ⟨l, p, first, second, rfl⟩ := assemble_eq_ok_iff.1 assembled
    have emits := (Program.ofLayout_eq_ok_iff.1 second).2
    rw [(clear_of_ofLines first).2.statements] at emits
    exact emits.listable plain
  have part : ∀ i ∈ image.trimmed, i ∈ image.body := fun i mem =>
    image.trimmed_prefix.subset mem
  have normal : image.trimmed.map Instruction.normal = image.trimmed :=
    (List.map_congr_left fun i mem => (listable i (part i mem)).2).trans (List.map_id _)
  have listed : assemble image.listing = _ := assemble_nameable
    (image.length_trimmed.trans (by omega)) fun i mem => (listable i (part i mem)).1
  rw [normal] at listed
  refine ⟨listable, listed, ?_⟩
  rw [listed, ← Image.trimmed_eq_body_iff, ← entered_iff assembled small, Except.ok.injEq,
    Image.mk.injEq, and_comm]
  exact and_congr_right fun whole => by rw [whole]

end

/-- an all-zero instruction in front of the last one, and the entry label in front of it -/
theorem assemble_relisted_whole :
    let image : Image := ⟨4, [.of .halt, {}, .of .output]⟩
    assemble "hlt\n::main\nmov $a, $b\nout" = .ok image ∧
      (∀ s ∈ statementsOf (linesOf "hlt\n::main\nmov $a, $b\nout"),
        s.mnemonic ≠ .storeImmediate) ∧
      image.body.length ≤ 32766 ∧ assemble image.listing = .ok image := by
  intro image
  have assembled : assemble "hlt\n::main\nmov $a, $b\nout" = .ok image := by rfl
  have mnemonics : (statementsOf (linesOf "hlt\n::main\nmov $a, $b\nout")).map
      Statement.mnemonic = [.halt, .move, .output] := by rfl
  have plain : ∀ s ∈ statementsOf (linesOf "hlt\n::main\nmov $a, $b\nout"),
      s.mnemonic ≠ .storeImmediate := by
    intro s mem stores
    have named := List.mem_map_of_mem (f := Statement.mnemonic) mem
    rw [mnemonics, stores] at named
    exact absurd named (by decide)
  have listed := (assemble_relisted assembled plain (by decide)).2.1
  exact ⟨assembled, plain, by decide, listed.trans (by rfl)⟩

/-- a last instruction that is all zero, and an entry label behind the last instruction -/
theorem assemble_relisted_short :
    let ending : Image := ⟨0, [.of .halt, .of (.move ⟨.a, .b, by decide⟩)]⟩
    let labelled : Image := ⟨4, [.of .halt]⟩
    assemble "hlt\nmov $a, $b" = .ok ending ∧ assemble "hlt\n::main" = .ok labelled ∧
      assemble ending.listing = .ok ⟨0, [.of .halt]⟩ ∧
      assemble labelled.listing = .ok ⟨0, [.of .halt]⟩ := by
  intro ending labelled
  have halts : ∀ i ∈ [Instruction.of .halt], i.Nameable :=
    List.forall_mem_singleton.2 (Instruction.nameable_of rfl)
  have first : ending.trimmed = [.of .halt] := by decide
  have second : labelled.trimmed = [.of .halt] := by decide
  refine ⟨by rfl, by rfl, ?_, ?_⟩
  · refine (assemble_nameable (by decide) (first ▸ halts)).trans ?_
    rfl
  · refine (assemble_nameable (by decide) (second ▸ halts)).trans ?_
    rfl

end Assembly

end OneBus
