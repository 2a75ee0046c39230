import OneBus.Proofs.Addresses
import OneBus.Proofs.Literals

/-!
What the assembler takes and what it says about the rest. `WellFormed` is the language and
`Reported` the one error of a source outside it, both by its lines alone; `assemble_accepts` says
that these are what the two passes come to. The first pass goes over all lines before the second
looks at an operand, so a line that cannot be read is reported even behind a faulty statement. Among
the errors there is one that is not given back, `Cause.overflow`: a program that is built with checks
stops at a token that `Overflows`, and one without them does not.
-/

namespace OneBus.Assembly

/-- a source that assembles -/
structure WellFormed [Build] (lines : List Line) : Prop where
  readable : ∀ line ∈ lines, ∃ i, line.Reads i
  distinct : ∀ above line name, above ++ [line] <+: lines → line.Reads (.label name) →
    ∀ other ∈ above, ¬ other.Reads (.label name)
  fitting : ∀ line ∈ lines, ∀ s, line.Reads (.statement s) → s.Fits
  defined : ∀ line ∈ lines, ∀ s, line.Reads (.statement s) →
    ∀ name, .label name ∈ s.operands → Defined lines name
  inRange : ∀ line ∈ lines, ∀ s, line.Reads (.statement s) →
    ∀ n, .numeral n ∈ s.operands → Immediate n

/-- the error for a source that does not assemble, with the number of its line -/
inductive Reported [Build] (lines : List Line) : AssemblyError → Prop
  | line {above : List Line} {line : Line} {cause : Cause} (place : above ++ [line] <+: lines)
    (clear : Clear above) (stops : line.Stops above cause) :
    Reported lines ⟨above.length + 1, cause⟩
  | statement {above : List Line} {line : Line} {s : Statement} {cause : Cause}
    (clear : Clear lines) (place : above ++ [line] <+: lines) (reads : line.Reads (.statement s))
    (fine : ∀ other ∈ above, ∀ t, other.Reads (.statement t) →
      ∀ cause, ¬ t.Faulty (Defined lines) cause)
    (faulty : s.Faulty (Defined lines) cause) : Reported lines ⟨above.length + 1, cause⟩

theorem number_eq {source : String} {above : List Line} {line : Line}
    (place : above ++ [line] <+: linesOf source) : line.number = above.length + 1 := by
  obtain ⟨below, split⟩ := place
  have found : (linesOf source)[above.length]? = some line := by simp [← split]
  simp only [linesOf, List.getElem?_map, List.getElem?_zipIdx, Option.map_map,
    Option.map_eq_some_iff, Function.comp_apply] at found
  obtain ⟨text, -, rfl⟩ := found
  exact Nat.add_comm ..

theorem Line.Reads.line_eq [Build] {line : Line} {s : Statement} (h : line.Reads (.statement s)) :
    s.line = line.number := by
  cases h
  rfl

theorem clear_iff [Build] {lines : List Line} : Clear lines ↔ (∀ line ∈ lines, ∃ i, line.Reads i) ∧
    ∀ above line name, above ++ [line] <+: lines → line.Reads (.label name) →
      ∀ other ∈ above, ¬ other.Reads (.label name) := by
  constructor
  · intro clear
    constructor
    · intro line mem
      obtain ⟨above, below, rfl⟩ := List.append_of_mem mem
      rcases line.reads_or_misread with reads | ⟨cause, misread⟩
      · exact reads
      · exact absurd (.misread misread) (clear above line ⟨below, by simp⟩ cause)
    · intro above line name place reads other mem same
      exact clear above line place _ (.redefined reads mem same)
  · rintro ⟨readable, distinct⟩ above line place cause stops
    cases stops with
    | misread misread =>
      obtain ⟨i, reads⟩ := readable line (mem_of_below place)
      cases (Line.item_of_reads reads).symm.trans (Line.item_of_misread misread)
    | redefined reads mem same => exact distinct above line _ place reads _ mem same

theorem Statement.exists_encode_iff {s : Statement} {symbols : Symbols} :
    (∃ is, s.encode symbols = .ok is) ↔
      ∀ cause, ¬ s.Faulty (fun name => (symbols.lookup name).isSome) cause := by
  simp only [← encode_eq_error_iff]
  cases s.encode symbols <;> simp

section

variable {lines : List Line} {l : Layout}

theorem Surveyed.known [Build] (surveyed : Surveyed lines l) :
    (fun name => (l.symbols.lookup name).isSome = true) = Defined lines :=
  funext fun name => propext (surveyed.isSome_lookup name)

theorem wellFormed_iff [Build] : WellFormed lines ↔ Clear lines ∧ ∀ line ∈ lines, ∀ s,
    line.Reads (.statement s) → ∀ cause, ¬ s.Faulty (Defined lines) cause := by
  simp only [clear_iff, Statement.not_faulty_iff]
  constructor
  · rintro ⟨readable, distinct, fitting, defined, inRange⟩
    exact ⟨⟨readable, distinct⟩, fun line mem s reads =>
      ⟨fitting line mem s reads, defined line mem s reads, inRange line mem s reads⟩⟩
  · rintro ⟨⟨readable, distinct⟩, sound⟩
    exact ⟨readable, distinct, fun line mem s reads => (sound line mem s reads).1,
      fun line mem s reads => (sound line mem s reads).2.1,
      fun line mem s reads => (sound line mem s reads).2.2⟩

theorem Surveyed.encoded_iff [Build] (surveyed : Surveyed lines l) {above : List Line} :
    (∀ s ∈ statementsOf above, ∃ is, s.encode l.symbols = .ok is) ↔
      ∀ line ∈ above, ∀ s, line.Reads (.statement s) →
        ∀ cause, ¬ s.Faulty (Defined lines) cause := by
  simp only [mem_statementsOf, Statement.exists_encode_iff, surveyed.known]
  constructor
  · intro sound line mem s reads
    exact sound s ⟨line, mem, reads⟩
  · rintro sound s ⟨line, mem, reads⟩
    exact sound line mem s reads

theorem Surveyed.ofLayout_eq_error_iff [Build] (surveyed : Surveyed lines l) {e : AssemblyError} :
    Program.ofLayout l = .error e ↔ ∃ above line s cause, above ++ [line] <+: lines ∧
      line.Reads (.statement s) ∧ (∀ other ∈ above, ∀ t, other.Reads (.statement t) →
        ∀ cause, ¬ t.Faulty (Defined lines) cause) ∧
      s.Faulty (Defined lines) cause ∧ e = ⟨line.number, cause⟩ := by
  simp only [Program.ofLayout_eq_error_iff, surveyed.statements, Statement.encode_eq_error_iff,
    surveyed.known]
  constructor
  · rintro ⟨before, s, after, split, fine, cause, faulty, rfl⟩
    obtain ⟨above, line, place, rfl, reads⟩ := statementsOf_eq_iff.1 ⟨after, split⟩
    exact ⟨above, line, s, cause, place, reads, surveyed.encoded_iff.1 fine, faulty,
      by rw [reads.line_eq]⟩
  · rintro ⟨above, line, s, cause, place, reads, fine, faulty, rfl⟩
    obtain ⟨after, split⟩ := statementsOf_eq_iff.2 ⟨above, line, place, rfl, reads⟩
    exact ⟨_, s, after, split, surveyed.encoded_iff.2 fine, cause, faulty, by rw [reads.line_eq]⟩

end

theorem exists_assemble_iff [Build] {source : String} :
    (∃ image, assemble source = .ok image) ↔ WellFormed (linesOf source) := by
  simp only [assemble_eq_ok_iff, wellFormed_iff]
  constructor
  · rintro ⟨image, l, p, first, second, -⟩
    obtain ⟨clear, surveyed⟩ := clear_of_ofLines first
    have encoded := Program.exists_ofLayout_iff.1 ⟨p, second⟩
    rw [surveyed.statements] at encoded
    exact ⟨clear, surveyed.encoded_iff.1 encoded⟩
  · rintro ⟨clear, sound⟩
    obtain ⟨l, first, surveyed⟩ := ofLines_of_clear clear
    have encoded := surveyed.encoded_iff.2 sound
    rw [← surveyed.statements] at encoded
    obtain ⟨p, second⟩ := Program.exists_ofLayout_iff.2 encoded
    exact ⟨p.image, l, p, first, second, rfl⟩

theorem assemble_eq_error_iff_reported [Build] {source : String} {e : AssemblyError} :
    assemble source = .error e ↔ Reported (linesOf source) e := by
  rw [assemble_eq_error_iff]
  constructor
  · rintro (fails | ⟨l, first, fails⟩)
    · rcases clear_or_stops (linesOf source) with clear | ⟨above, line, cause, place, clear, stops⟩
      · obtain ⟨l, first, -⟩ := ofLines_of_clear clear
        cases fails.symm.trans first
      · cases fails.symm.trans (ofLines_of_stops place clear stops)
        rw [number_eq place]
        exact .line place clear stops
    · obtain ⟨clear, surveyed⟩ := clear_of_ofLines first
      obtain ⟨above, line, s, cause, place, reads, fine, faulty, rfl⟩ :=
        surveyed.ofLayout_eq_error_iff.1 fails
      rw [number_eq place]
      exact .statement clear place reads fine faulty
  · intro reported
    cases reported with
    | line place clear stops =>
      rw [← number_eq place]
      exact .inl (ofLines_of_stops place clear stops)
    | statement clear place reads fine faulty =>
      obtain ⟨l, first, surveyed⟩ := ofLines_of_clear clear
      rw [← number_eq place]
      exact .inr ⟨l, first, surveyed.ofLayout_eq_error_iff.2
        ⟨_, _, _, _, place, reads, fine, faulty, rfl⟩⟩

theorem overflows_of_ofToken [Build] {t : Token} (stops : Operand.ofToken t = .error .overflow) :
    Overflows t := by
  rw [← readNumeral_eq_overflow_iff]
  unfold Operand.ofToken at stops
  split at stops
  · split at stops <;> cases stops
  · split at stops
    · split at stops <;> cases stops
    · cases stops
  · next name =>
    by_cases valid : LabelName name
    · rw [labelName_ok valid] at stops
      cases stops
    · rw [labelName_error valid] at stops
      cases stops
  · split at stops
    · cases stops
    · cases stops
    · assumption

theorem overflows_of_reported [Build] {lines : List Line} {n : Nat}
    (reported : Reported lines ⟨n, .overflow⟩) :
    ∃ above line, above ++ [line] <+: lines ∧ n = above.length + 1 ∧
      ∃ t ∈ line.tokens, Overflows t := by
  generalize error : (⟨n, .overflow⟩ : AssemblyError) = e at reported
  cases reported with
  | @line above line cause place clear stops =>
    cases error
    refine ⟨above, line, place, rfl, ?_⟩
    generalize overflow : Cause.overflow = cause at stops
    cases stops with
    | misread misread =>
      cases misread with
      | operand tokens plain fine bad =>
        subst overflow
        exact ⟨_, by simp [tokens], overflows_of_ofToken bad⟩
      | company _ | badLabel _ _ | mnemonic _ _ _ _ => cases overflow
    | redefined reads mem same => cases overflow
  | statement clear place reads fine faulty =>
    cases error
    exact absurd rfl faulty.second_pass.1

/-- a source assembles exactly if it is well-formed, and otherwise one error is reported; the program
stops only if it is built with checks, at the first such line, for a token that overflows -/
theorem assemble_accepts [Build] (source : String) :
    ((∃ image, assemble source = .ok image) ↔ WellFormed (linesOf source)) ∧
      (∀ e, assemble source = .error e ↔ Reported (linesOf source) e) ∧
      ∀ n, assemble source = .error ⟨n, .overflow⟩ → Build.checked ∧
        ∃ above line, above ++ [line] <+: linesOf source ∧ n = above.length + 1 ∧
          ∃ t ∈ line.tokens, Overflows t := by
  refine ⟨exists_assemble_iff, fun _ => assemble_eq_error_iff_reported, fun n stops => ?_⟩
  obtain ⟨above, line, place, number, t, mem, overflows⟩ :=
    overflows_of_reported (assemble_eq_error_iff_reported.1 stops)
  exact ⟨overflows.1, above, line, place, number, t, mem, overflows⟩

/-- twice the minus sign in front of the least number of 64 bits, in a release build -/
example : assemble "ldi $a, --9223372036854775808" = .error ⟨1, .outOfRange least⟩ := by rfl

example : assemble "jmp ::nowhere\nldi $a 65536\n::a b" = .error ⟨3, .labelWithCompany⟩ := by rfl

example : assemble "jmp ::nowhere\nldi $a 65536" = .error ⟨1, .undefinedLabel "nowhere"⟩ := by rfl

end OneBus.Assembly
