import OneBus.CommandLine.Execution
import OneBus.Proofs.Failing

/-!
Where the settings of a run come from. What a file states is `Configuration.Stated`, each setting of
it or none, and `RunSettings.merged` puts the flags above it and the defaults below. A run with a file
that is sound by itself is the run with the same settings as flags, and no file: what the flags
override is not seen any more. But a file is looked at before that, and a memory size that it states
has to be sound, overridden or not.
-/

namespace OneBus

open Json Files

namespace Configuration

/-- a memory of the size holds whole cells, and the header of an image -/
def Sound (memorySize : Nat) : Prop := memorySize % 2 = 0 ∧ 4 ≤ memorySize

instance (memorySize : Nat) : Decidable (Sound memorySize) := inferInstanceAs (Decidable (_ ∧ _))

theorem validate_eq_ok_iff (c : Configuration) : c.validate = .ok () ↔ Sound c.memorySize := by
  unfold validate Sound
  split
  · simp; omega
  · split
    · simp; omega
    · simp; omega

theorem Stated.sound_configuration (f : Stated) :
    Sound f.configuration.memorySize ↔ ∀ n ∈ f.memorySize, Sound n := by
  unfold configuration
  cases f.memorySize with
  | none => simp [Sound]
  | some n => simp

end Configuration

namespace CommandLine

open OneBus.Configuration

/-- the file at a path is a configuration and states so much -/
def Reads [Decoder] (w : World) (path : String) (f : Stated) : Prop :=
  ∃ bytes text, w.tree.read path = .ok bytes ∧ decodeText bytes = .ok text ∧
    Decoder.stated? text = some f

/-- a setting given as a flag, else as the file states it, else its default -/
def RunSettings.merged (s : RunSettings) (f : Stated) : Configuration where
  memorySize := (s.memorySize <|> f.memorySize).getD 256
  clockRate := (s.clockRate <|> f.clockRate).getD Clock.defaultRate
  image := s.program <|> f.image

theorem RunSettings.override_configuration (s : RunSettings) (f : Stated) :
    s.override f.configuration = s.merged f := by
  unfold override merged Stated.configuration
  cases s.memorySize <;> cases s.clockRate <;> rfl

/-- the run with all settings of a configuration as flags, and without a file -/
def RunSettings.explicit (s : RunSettings) (c : Configuration) : RunSettings :=
  { s with
    configuration := none
    program := c.image
    memorySize := some c.memorySize
    clockRate := some c.clockRate }

/-- a command at work in a world -/
abbrev InWorld := Action (StateM World)

section

variable {α β γ : Type} {x : InWorld α} {f : α → InWorld β} {w w' : World}

theorem bind_apply {x : StateM World α} {f : α → StateM World β} {a : α} (ended : x w = (a, w')) :
    (x >>= f) w = f a w' := by
  have step : (x >>= f) w = f (x w).1 (x w).2 := rfl
  rw [step, ended]

theorem run_attempt {ε : Type} {wrap : ε → Failure} {x : StateM World (Except ε α)}
    {outcome : Except ε α} (ended : x w = (outcome, w')) :
    (attempt wrap x).run w = (outcome.mapError wrap, w') := bind_apply ended

theorem run_bind_ok {a : α} (ended : x.run w = (.ok a, w')) : (x >>= f).run w = (f a).run w' :=
  bind_apply (f := ExceptT.bindCont f) ended

theorem run_bind_error {e : Failure} (ended : x.run w = (.error e, w')) :
    (x >>= f).run w = (.error e, w') :=
  bind_apply (f := ExceptT.bindCont f) ended

theorem run_bind_congr {y : InWorld α} (same : x.run w = y.run w) :
    (x >>= f).run w = (y >>= f).run w := by
  rcases ended : y.run w with ⟨a | e, w'⟩
  · rw [run_bind_error ended, run_bind_error (same.trans ended)]
  · rw [run_bind_ok ended, run_bind_ok (same.trans ended)]

/-- does not fail because of a configuration, wherever it is done -/
def Passes (x : InWorld α) : Prop :=
  ∀ w e, (x.run w).1 ≠ .error (.configuration e)

/-- what fails because of a configuration does so in its first part -/
theorem run_bind_configuration (next : ∀ a, Passes (f a)) {e : ConfigurationError} :
    ((x >>= f).run w).1 = .error (.configuration e) ↔ (x.run w).1 = .error (.configuration e) := by
  rcases ended : x.run w with ⟨cause | a, w'⟩
  · rw [run_bind_error ended]
    simp only [Except.error.injEq]
  · rw [run_bind_ok ended]
    constructor
    · intro failed
      exact absurd failed (next a w' e)
    · intro failed
      cases failed

namespace Passes

theorem pure (a : α) : Passes (Pure.pure a) := by
  intro w e failed
  cases failed

theorem throw {cause : Failure} (apart : ∀ e, cause ≠ .configuration e) :
    Passes (throw cause : InWorld α) := by
  intro w e failed
  exact apart e (Except.error.inj failed)

theorem lift (x : StateM World α) : Passes (ExceptT.lift x) := by
  intro w e failed
  cases failed

theorem attempt {ε : Type} {wrap : ε → Failure} (apart : ∀ cause e, wrap cause ≠ .configuration e)
    (x : StateM World (Except ε α)) : Passes (attempt wrap x) := by
  intro w e failed
  have wrapped : (x w).1.mapError wrap = .error (.configuration e) := failed
  cases outcome : (x w).1 with
  | ok a =>
    rw [outcome] at wrapped
    cases wrapped
  | error cause =>
    rw [outcome] at wrapped
    exact apart cause e (Except.error.inj wrapped)

theorem bind (first : Passes x) (next : ∀ a, Passes (f a)) : Passes (x >>= f) := by
  intro w e failed
  exact first w e ((run_bind_configuration next).1 failed)

theorem foldlM {step : β → γ → InWorld β} (each : ∀ b c, Passes (step b c))
    (l : List γ) (b : β) : Passes (l.foldlM step b) := by
  induction l generalizing b with
  | nil => exact pure b
  | cons c l ih =>
    rw [List.foldlM_cons]
    exact (each b c).bind ih

end Passes

theorem passes_say (line : String) : Passes (say line) := .lift _

theorem passes_sayAll (lines : List String) : Passes (sayAll lines) := .lift _

theorem passes_loadProgram (path : String) : Passes (loadProgram path) := by
  unfold loadProgram
  split
  · refine (Passes.attempt (fun _ _ => Failure.noConfusion) _).bind fun source => ?_
    refine (Passes.attempt (fun _ _ => Failure.noConfusion) _).bind fun image => ?_
    exact (passes_say _).bind fun _ => .pure image
  · refine (Passes.attempt (fun _ _ => Failure.noConfusion) _).bind fun image => ?_
    exact (passes_say _).bind fun _ => .pure image

namespace RunSettings

variable {s : RunSettings} {path : String} {f : Stated}

/-- the run in a world, and the world behind it -/
def outcome [Decoder] (s : RunSettings) (w : World) : Except Failure Unit × World :=
  (s.execute : InWorld Unit).run w

theorem run_ofFile [Decoder] {text : String} (file : w.tree.read path >>= decodeText = .ok text) :
    (Configuration.ofFile path : StateM World _) w = (Configuration.ofText text, w) := by
  have read : (readText path : StateM World _) w = (.ok text, w) := by
    rw [← file]
    rfl
  unfold Configuration.ofFile
  exact bind_apply read

theorem run_settle (c : Configuration) (w : World) :
    (do attempt .configuration (pure c.validate); return c : InWorld Configuration).run w =
      ((do c.validate; return c : Except ConfigurationError Configuration).mapError
        .configuration, w) := by
  cases c.validate with
  | error e => exact run_bind_error rfl
  | ok => exact run_bind_ok rfl

theorem run_configured [Decoder] (given : s.configuration = some path) (reads : Reads w path f) :
    (s.configured : InWorld Configuration).run w =
      ((do f.configuration.validate; (s.merged f).validate; return s.merged f :
        Except ConfigurationError Configuration).mapError .configuration, w) := by
  obtain ⟨bytes, text, file, decoded, stated⟩ := reads
  have read : w.tree.read path >>= decodeText = .ok text := by
    rw [file]
    exact decoded
  have first : (attempt .configuration (Configuration.ofFile path) : InWorld _).run w = _ :=
    run_attempt (run_ofFile read)
  rw [Configuration.ofText, stated] at first
  dsimp only at first
  unfold configured
  rw [given]
  dsimp only
  cases own : f.configuration.validate with
  | error e =>
    rw [own] at first
    exact run_bind_error first
  | ok =>
    rw [own] at first
    refine (run_bind_ok first).trans ?_
    rw [override_configuration]
    exact run_settle (s.merged f) w

theorem override_explicit (s : RunSettings) (c : Configuration) : (s.explicit c).override {} = c := by
  have image : (c.image <|> none) = c.image := by cases c.image <;> rfl
  unfold override RunSettings.explicit
  simp only [image, Option.getD_some]

theorem run_configured_explicit [Decoder] (s : RunSettings) (c : Configuration) (w : World) :
    ((s.explicit c).configured : InWorld Configuration).run w =
      ((do c.validate; return c : Except ConfigurationError Configuration).mapError
        .configuration, w) := by
  have fileless : (s.explicit c).configuration = none := rfl
  unfold configured
  rw [fileless]
  dsimp only
  rw [pure_bind, override_explicit]
  exact run_settle c w

/-- behind its settings, a run fails for other reasons -/
theorem outcome_configuration [Decoder] (s : RunSettings) (w : World) (e : ConfigurationError) :
    (s.outcome w).1 = .error (.configuration e) ↔
      ((s.configured : InWorld Configuration).run w).1 = .error (.configuration e) := by
  unfold outcome execute
  refine run_bind_configuration fun c => ?_
  dsimp only
  split
  case h_2 => exact Passes.throw fun _ => Failure.noConfusion
  case h_1 path _ =>
    refine (Passes.pure path).bind fun path => ?_
    refine (passes_say _).bind fun _ => ?_
    refine (passes_loadProgram path).bind fun image => ?_
    refine Passes.bind (.foldlM (fun _ _ => (passes_say _).bind fun _ => .pure _) _ _) fun m => ?_
    refine (passes_sayAll _).bind fun _ => ?_
    refine (Passes.lift _).bind fun ended => ?_
    split
    case h_2 => exact .pure ()
    case h_1 reason _ =>
      refine (passes_sayAll _).bind fun _ => ?_
      have last : Passes (do let _ ← attempt .machine (pure reason)) :=
        (Passes.attempt (fun _ _ => Failure.noConfusion) _).bind fun _ => .pure ()
      split
      · exact (passes_say _).bind fun _ => last
      · exact last

theorem outcome_refused_iff [Decoder] (given : s.configuration = some path)
    (reads : Reads w path f) :
    (∃ e, (s.outcome w).1 = .error (.configuration e)) ↔
      ¬ (Sound (s.merged f).memorySize ∧ ∀ n ∈ f.memorySize, Sound n) := by
  simp only [outcome_configuration, run_configured given reads]
  rw [← f.sound_configuration, ← validate_eq_ok_iff, ← validate_eq_ok_iff, and_comm]
  cases f.configuration.validate with
  | error e => simp [bind, Except.bind, Except.mapError]
  | ok =>
    cases (s.merged f).validate with
    | error e => simp [bind, Except.bind, Except.mapError]
    | ok => simp [bind, Except.bind, Except.mapError, pure, Except.pure]

theorem outcome_explicit [Decoder] (given : s.configuration = some path) (reads : Reads w path f)
    (own : ∀ n ∈ f.memorySize, Sound n) : s.outcome w = (s.explicit (s.merged f)).outcome w := by
  have sound : f.configuration.validate = .ok () :=
    (validate_eq_ok_iff _).2 (f.sound_configuration.2 own)
  have settings : (s.configured : InWorld Configuration).run w =
      ((s.explicit (s.merged f)).configured : InWorld Configuration).run w := by
    rw [run_configured given reads, run_configured_explicit, sound]
    rfl
  unfold outcome execute
  exact run_bind_congr settings

/-- only the settled values count, and whether a file passes by itself -/
theorem outcome_of_same [Decoder] {other : String} {g : Stated} (given : s.configuration = some path)
    (reads : Reads w path f) (otherReads : Reads w other g) (settled : s.merged g = s.merged f)
    (own : g.configuration.validate = f.configuration.validate) :
    { s with configuration := some other }.outcome w = s.outcome w := by
  have settings : ({ s with configuration := some other }.configured : InWorld Configuration).run w
      = (s.configured : InWorld Configuration).run w := by
    have same : { s with configuration := some other }.merged g = s.merged f := settled
    rw [run_configured given reads, run_configured rfl otherReads, own, same]
  unfold outcome execute
  exact run_bind_congr settings

/-- A flag wins over what the file states, and that over a default. A run with a file that is a
configuration is refused if the settled memory size is not sound, or if the one that the file states is
not, overridden or not, and goes on with the settled values otherwise. With a sound file, it is the run
with the settled values as flags and no file. What the flags override is not seen: another file that
leads to the same values leads to the same run, if both state sound memory sizes or the same one. -/
theorem flags_first [Decoder] (s : RunSettings) (w : World) {path : String} {f : Stated}
    (given : s.configuration = some path) (reads : Reads w path f) :
    let sound := Sound (s.merged f).memorySize ∧ ∀ n ∈ f.memorySize, Sound n
    ((∃ e, (s.outcome w).1 = .error (.configuration e)) ↔ ¬ sound) ∧
      (sound → (s.configured : InWorld Configuration).run w = (.ok (s.merged f), w)) ∧
      ((∀ n ∈ f.memorySize, Sound n) → s.outcome w = (s.explicit (s.merged f)).outcome w) ∧
      ∀ {other : String} {g : Stated}, Reads w other g → s.merged g = s.merged f →
        g.memorySize = f.memorySize ∨
          (∀ n ∈ f.memorySize, Sound n) ∧ (∀ n ∈ g.memorySize, Sound n) →
        { s with configuration := some other }.outcome w = s.outcome w := by
  have passes {f : Stated} (own : ∀ n ∈ f.memorySize, Sound n) :
      f.configuration.validate = .ok () := (validate_eq_ok_iff _).2 (f.sound_configuration.2 own)
  refine ⟨outcome_refused_iff given reads, fun sound => ?_, outcome_explicit given reads,
    fun otherReads settled sizes => ?_⟩
  · rw [run_configured given reads, passes sound.2, (validate_eq_ok_iff _).2 sound.1]
    rfl
  · refine outcome_of_same given reads otherReads settled ?_
    rcases sizes with same | ⟨own, others⟩
    · unfold validate Stated.configuration
      simp only [same]
    · exact (passes others).trans (passes own).symm

theorem reads_of_text [Decoder] (text : String)
    (file : (w.tree.read path).toOption = some text.toUTF8.toList)
    (decoded : (decodeText text.toUTF8.toList).toOption = some text)
    (stated : Decoder.stated? text = some f) : Reads w path f :=
  ⟨_, _, toOption_eq_some_iff.1 file, toOption_eq_some_iff.1 decoded, stated⟩

/-- two files that differ only in what the flags override -/
theorem flags_first_two_files :
    let files := [("c", "[16,7]".toUTF8.toList), ("d", "[32,7]".toUTF8.toList)]
    let w : World := { tree := .ofList files }
    let s : RunSettings :=
      { program := some "p", memorySize := some 64, configuration := some "c" }
    let f : Stated := { memorySize := some 16, clockRate := some 7 }
    s.configuration = some "c" ∧ Reads w "c" f ∧
      (¬ ∃ e, (s.outcome w).1 = .error (.configuration e)) ∧
      (s.configured : InWorld Configuration).run w = (.ok ⟨64, 7, some "p"⟩, w) ∧
      s.outcome w = (s.explicit ⟨64, 7, some "p"⟩).outcome w ∧
      { s with configuration := some "d" }.outcome w = s.outcome w := by
  intro files w s f
  have reads : Reads w "c" f :=
    reads_of_text "[16,7]" (by decide +kernel) (by decide +kernel) (by decide +kernel)
  have other : Reads w "d" { memorySize := some 32, clockRate := some 7 } :=
    reads_of_text "[32,7]" (by decide +kernel) (by decide +kernel) (by decide +kernel)
  have sound : ∀ n ∈ f.memorySize, Sound n := by simp [f, Sound]
  obtain ⟨refused, settled, plain, alike⟩ := flags_first s w rfl reads
  have both := And.intro (by decide : Sound (s.merged f).memorySize) sound
  refine ⟨rfl, reads, fun h => refused.1 h both, settled both, plain sound, ?_⟩
  exact alike other rfl (.inr ⟨sound, by simp [Sound]⟩)

/-- a sound size is settled on, and yet the run is refused, for the size that is overridden -/
theorem overridden_size_refused :
    let files := [("c", "\x7b\"memory_size\":3\x7d".toUTF8.toList),
      ("p", [0x94, 0, 0, 0, 0x2e, 0, 0, 0])]
    let w : World := { tree := .ofList files }
    let s : RunSettings :=
      { program := some "p", memorySize := some 64, configuration := some "c" }
    let f : Stated := { memorySize := some 3 }
    Reads w "c" f ∧ Sound (s.merged f).memorySize ∧
      s.outcome w = (.error (.configuration (.oddMemorySize 3)), w) := by
  intro files w s f
  have reads : Reads w "c" f :=
    reads_of_text "\x7b\"memory_size\":3\x7d" (by decide +kernel) (by decide +kernel)
      (by decide +kernel)
  have odd : f.configuration.validate = .error (.oddMemorySize 3) := if_pos (by decide)
  have refused : (s.configured : InWorld Configuration).run w =
      (.error (.configuration (.oddMemorySize 3)), w) := by
    rw [run_configured (s := s) rfl reads, odd]
    rfl
  refine ⟨reads, by decide, ?_⟩
  unfold outcome execute
  exact run_bind_error refused

end RunSettings
end

end CommandLine
end OneBus
