import Mathlib.Data.List.Infix
import OneBus.Proofs.Grammar

/-!
The first pass over a source. `above ++ [line] <+: lines` says where a line stands, right below some
others. A line is a stop if it cannot be read or defines a label that one above it defines already.
Main statements: `ofLines_of_clear`, without a stop the pass knows the statements in order and each
label by the instructions counted above it; `ofLines_of_stops`, the first stop is what it reports.
-/

namespace OneBus.Assembly

section

variable {above lines : List Line} {line last : Line}

theorem below_concat_iff :
    above ++ [line] <+: lines ++ [last] ↔
      above ++ [line] <+: lines ∨ above = lines ∧ line = last := by
  rw [List.prefix_concat_iff, List.append_singleton_inj, or_comm]

theorem below_last (lines : List Line) (last : Line) : lines ++ [last] <+: lines ++ [last] :=
  List.prefix_rfl

theorem mem_of_below (h : above ++ [line] <+: lines) : line ∈ lines :=
  h.subset (List.mem_append_right _ (List.mem_singleton_self line))

end

namespace Line

def statement? [Build] (line : Line) : Option Statement :=
  match line.item with
  | .ok (.statement s) => some s
  | _ => none

theorem statement?_of_reads [Build] {line : Line} {i : Item} (reads : line.Reads i) :
    line.statement? =
      match i with
      | .statement s => some s
      | _ => none := by
  rw [statement?, item_of_reads reads]
  cases i <;> rfl

theorem statement?_eq_some [Build] {line : Line} {s : Statement} :
    line.statement? = some s ↔ line.Reads (.statement s) := by
  constructor
  · intro h
    obtain ⟨i, reads⟩ | ⟨cause, misread⟩ := line.reads_or_misread
    · rw [statement?_of_reads reads] at h
      cases i <;> cases h
      exact reads
    · rw [statement?, item_of_misread misread] at h
      contradiction
  · exact statement?_of_reads

/-- what the first pass stops at -/
inductive Stops [Build] (above : List Line) (line : Line) : Cause → Prop
  | misread {cause : Cause} (misread : line.Misread cause) : Stops above line cause
  | redefined {name : String} {other : Line} (reads : line.Reads (.label name))
    (mem : other ∈ above) (same : other.Reads (.label name)) :
    Stops above line (.duplicateLabel name)

end Line

/-- the statements of a source, in order -/
def statementsOf [Build] (lines : List Line) : List Statement := lines.filterMap Line.statement?

/-- how many instructions the first pass counts for statements -/
def span : List Statement → Nat
  | [] => 0
  | s :: rest => s.words + span rest

theorem span_append (before after : List Statement) :
    span (before ++ after) = span before + span after := by
  induction before with
  | nil => exact (Nat.zero_add _).symm
  | cons s before ih => rw [List.cons_append, span, span, ih, Nat.add_assoc]

theorem mem_statementsOf [Build] {lines : List Line} {s : Statement} :
    s ∈ statementsOf lines ↔ ∃ line ∈ lines, line.Reads (.statement s) := by
  simp only [statementsOf, List.mem_filterMap, Line.statement?_eq_some]

theorem statementsOf_prefix [Build] {above lines : List Line} (place : above <+: lines) :
    statementsOf above <+: statementsOf lines := place.filterMap _

theorem statementsOf_eq_iff [Build] {lines : List Line} {before : List Statement} {s : Statement} :
    (∃ after, statementsOf lines = before ++ s :: after) ↔
      ∃ above line, above ++ [line] <+: lines ∧ statementsOf above = before ∧
        line.Reads (.statement s) := by
  constructor
  · rintro ⟨after, split⟩
    obtain ⟨above, rest, rfl, rfl, last⟩ := List.filterMap_eq_append_iff.1 split
    obtain ⟨silent, line, below, rfl, none, reads, -⟩ := List.filterMap_eq_cons_iff.1 last
    refine ⟨above ++ silent, line, ⟨below, by simp⟩, ?_, Line.statement?_eq_some.1 reads⟩
    rw [statementsOf, List.filterMap_append, List.filterMap_eq_nil_iff.2 none, List.append_nil]
  · rintro ⟨above, line, ⟨below, rfl⟩, rfl, reads⟩
    refine ⟨statementsOf below, ?_⟩
    simp [statementsOf, Line.statement?_eq_some.2 reads]

theorem statementsOf_concat [Build] (lines : List Line) {line : Line} {i : Item}
    (reads : line.Reads i) :
    statementsOf (lines ++ [line]) =
      match i with
      | .statement s => statementsOf lines ++ [s]
      | _ => statementsOf lines := by
  rw [statementsOf, List.filterMap_append, List.filterMap_cons, List.filterMap_nil,
    Line.statement?_of_reads reads]
  cases i <;> simp [statementsOf]

/-- the line below the ones above defines a label -/
def Labelled [Build] (lines above : List Line) (name : String) : Prop :=
  ∃ line, above ++ [line] <+: lines ∧ line.Reads (.label name)

theorem labelled_concat [Build] (lines : List Line) {line : Line} {i : Item} (reads : line.Reads i)
    {above : List Line} {name : String} :
    Labelled (lines ++ [line]) above name ↔
      Labelled lines above name ∨ above = lines ∧ i = .label name := by
  simp only [Labelled, below_concat_iff, or_and_right, exists_or]
  apply or_congr_right
  constructor
  · rintro ⟨_, ⟨rfl, rfl⟩, same⟩
    exact ⟨rfl, Except.ok.inj ((Line.item_of_reads reads).symm.trans (Line.item_of_reads same))⟩
  · rintro ⟨rfl, rfl⟩
    exact ⟨line, ⟨rfl, rfl⟩, reads⟩

def Defined [Build] (lines : List Line) (name : String) : Prop :=
  ∃ line ∈ lines, line.Reads (.label name)

theorem exists_labelled [Build] {lines : List Line} {name : String} :
    (∃ above, Labelled lines above name) ↔ Defined lines name := by
  constructor
  · rintro ⟨above, line, place, reads⟩
    exact ⟨line, mem_of_below place, reads⟩
  · rintro ⟨line, mem, reads⟩
    obtain ⟨above, below, rfl⟩ := List.append_of_mem mem
    exact ⟨above, line, ⟨below, by simp⟩, reads⟩

/-- a source that the first pass gets through -/
def Clear [Build] (lines : List Line) : Prop :=
  ∀ above line, above ++ [line] <+: lines → ∀ cause, ¬ line.Stops above cause

/-- what is known after the first pass over some lines -/
structure Surveyed [Build] (lines : List Line) (l : Layout) : Prop where
  statements : l.statements.toList = statementsOf lines
  next : l.next = Image.addressOf (span (statementsOf lines))
  symbols : ∀ name a, l.symbols.lookup name = some a ↔
    ∃ above, Labelled lines above name ∧ a = Image.addressOf (span (statementsOf above))

namespace Surveyed

variable {above : List Line} {line : Line} {l : Layout}

theorem isSome_lookup [Build] (h : Surveyed above l) (name : String) :
    (l.symbols.lookup name).isSome ↔ Defined above name := by
  simp only [Option.isSome_iff_exists, h.symbols, ← exists_labelled]
  rw [exists_comm]
  simp

theorem addLine_of_stops [Build] (h : Surveyed above l) {cause : Cause}
    (stops : line.Stops above cause) : l.addLine line = .error ⟨line.number, cause⟩ := by
  cases stops with
  | misread misread =>
    rw [Layout.addLine, Line.item_of_misread misread]
    rfl
  | redefined reads mem same =>
    have known := (h.isSome_lookup _).2 ⟨_, mem, same⟩
    rw [Layout.addLine, Line.item_of_reads reads]
    change Except.mapError _ (Layout.add l (.label _)) = _
    rw [Layout.add, if_pos known]
    rfl

theorem blank [Build] (h : Surveyed above l) (reads : line.Reads .blank) :
    Surveyed (above ++ [line]) l := by
  constructor
  · rw [statementsOf_concat above reads, h.statements]
  · rw [statementsOf_concat above reads, h.next]
  · intro name a
    simp [labelled_concat above reads, h.symbols]

theorem label [Build] (h : Surveyed above l) {name : String} (reads : line.Reads (.label name))
    (new : ¬ Defined above name) :
    Surveyed (above ++ [line]) { l with symbols := (name, l.next) :: l.symbols } := by
  constructor
  · rw [statementsOf_concat above reads, h.statements]
  · rw [statementsOf_concat above reads, h.next]
  · intro other a
    have unlabelled (before : List Line) : ¬ Labelled above before name :=
      fun labelled => new (exists_labelled.1 ⟨before, labelled⟩)
    simp only [labelled_concat above reads, Item.label.injEq]
    by_cases same : name = other
    · subst same
      simp [unlabelled, h.next, eq_comm]
    · have apart : (other == name) = false := by simpa using Ne.symm same
      simp [List.lookup_cons, apart, same, h.symbols]

theorem statement [Build] (h : Surveyed above l) {s : Statement}
    (reads : line.Reads (.statement s)) :
    Surveyed (above ++ [line])
      { l with
        next := l.next + BitVec.ofNat 16 (Image.unitsPerInstruction * s.words)
        statements := l.statements.push s } := by
  constructor
  · rw [statementsOf_concat above reads, Array.toList_push, h.statements]
  · simp only [statementsOf_concat above reads, h.next, span_append, span, Nat.add_zero]
    simp [Image.addressOf, Nat.mul_add, BitVec.ofNat_add, BitVec.add_assoc]
  · intro name a
    simp [labelled_concat above reads, h.symbols]

theorem addLine_of_clear [Build] (h : Surveyed above l)
    (clear : ∀ cause, ¬ line.Stops above cause) :
    ∃ l', l.addLine line = .ok l' ∧ Surveyed (above ++ [line]) l' := by
  rcases line.reads_or_misread with ⟨i, reads⟩ | ⟨cause, misread⟩
  · rw [Layout.addLine, Line.item_of_reads reads]
    cases i with
    | blank => exact ⟨l, rfl, h.blank reads⟩
    | label name =>
      have new : ¬ Defined above name := by
        rintro ⟨other, mem, same⟩
        exact clear _ (.redefined reads mem same)
      refine ⟨_, ?_, h.label reads new⟩
      change Except.mapError _ (Layout.add l (.label name)) = _
      rw [Layout.add, if_neg ((h.isSome_lookup name).not.2 new)]
      rfl
    | statement s => exact ⟨_, rfl, h.statement reads⟩
  · exact absurd (.misread misread) (clear cause)

end Surveyed

section

variable {lines above : List Line} {line : Line}

theorem Clear.of_prefix [Build] (h : Clear lines) (place : above <+: lines) : Clear above :=
  fun before line stands => h before line (stands.trans place)

/-- the first pass gets through, and knows what is in the source -/
theorem ofLines_of_clear [Build] (clear : Clear lines) :
    ∃ l, Layout.ofLines lines = .ok l ∧ Surveyed lines l := by
  induction lines using List.reverseRecOn with
  | nil =>
    refine ⟨{}, rfl, rfl, rfl, fun name a => ?_⟩
    simp [Labelled]
  | append_singleton above line ih =>
    obtain ⟨l, done, surveyed⟩ := ih (clear.of_prefix (List.prefix_append above [line]))
    obtain ⟨l', step, after⟩ := surveyed.addLine_of_clear (clear above line (below_last above line))
    refine ⟨l', ?_, after⟩
    rw [Layout.ofLines] at done
    rw [Layout.ofLines, List.foldlM_append, done]
    change [line].foldlM Layout.addLine l = _
    rw [List.foldlM_cons, step]
    rfl

/-- the first stop is reported, whatever follows -/
theorem ofLines_of_stops [Build] (place : above ++ [line] <+: lines) (clear : Clear above)
    {cause : Cause} (stops : line.Stops above cause) :
    Layout.ofLines lines = .error ⟨line.number, cause⟩ := by
  obtain ⟨below, rfl⟩ := place
  obtain ⟨l, done, surveyed⟩ := ofLines_of_clear clear
  rw [Layout.ofLines] at done
  rw [Layout.ofLines, List.append_assoc, List.foldlM_append, done]
  change (line :: below).foldlM Layout.addLine l = _
  rw [List.foldlM_cons, surveyed.addLine_of_stops stops]
  rfl

theorem clear_or_stops [Build] (lines : List Line) :
    Clear lines ∨ ∃ above line cause, above ++ [line] <+: lines ∧ Clear above ∧
      line.Stops above cause := by
  induction lines using List.reverseRecOn with
  | nil =>
    refine .inl fun above line place => ?_
    simp at place
  | append_singleton lines last ih =>
    rcases ih with clear | ⟨above, line, cause, place, clear, stops⟩
    · by_cases free : ∀ cause, ¬ last.Stops lines cause
      · refine .inl fun above line place => ?_
        rcases below_concat_iff.1 place with place | ⟨rfl, rfl⟩
        · exact clear above line place
        · exact free
      · push Not at free
        obtain ⟨cause, stops⟩ := free
        exact .inr ⟨lines, last, cause, below_last lines last, clear, stops⟩
    · exact .inr ⟨above, line, cause, place.trans (List.prefix_append lines [last]), clear, stops⟩

theorem clear_of_ofLines [Build] {l : Layout} (done : Layout.ofLines lines = .ok l) :
    Clear lines ∧ Surveyed lines l := by
  rcases clear_or_stops lines with clear | ⟨above, line, cause, place, clear, stops⟩
  · obtain ⟨l', same, surveyed⟩ := ofLines_of_clear clear
    cases done.symm.trans same
    exact ⟨clear, surveyed⟩
  · cases done.symm.trans (ofLines_of_stops place clear stops)

end

end OneBus.Assembly
