import OneBus.Proofs.Sequencer

/-!
Another arithmetic unit: one that stores a sum whenever `A` or `B` latches, with the sign that the
word at the head of the queue asks for, and drives what it stored. The machine with it runs like
the machine whose sign is fixed when an opcode is decoded, because a word that drives the unit into
a register always comes right behind one that latches `B`. Only a comparison drives a stored sum
that may be stale, and nothing latches it.
-/

namespace OneBus

structure Lookahead (δ : Type) where
  machine : Machine δ
  /-- what the arithmetic unit drives -/
  stored : Word := 0

namespace Lookahead

variable {δ : Type}

/-- the sign that the word at the head of the queue asks for -/
def sign (l : Lookahead δ) : Operation :=
  if (l.machine.queue.headD .empty).contains .subtract then .subtract else .add

def compute (l : Lookahead δ) : Lookahead δ :=
  { l with stored := l.sign.apply l.machine.registers.a l.machine.registers.b }

/-- what the machine does, with the stored sum beside it -/
def lift (l : Lookahead δ) :
    Except (Failure δ) (Machine δ) → Except (Lookahead δ × MachineError) (Lookahead δ)
  | .ok machine => .ok { l with machine }
  | .error f => .error ({ l with machine := f.machine }, f.error)

variable [Peripheral δ]

def drive (l : Lookahead δ) : Signal → Except (Lookahead δ × MachineError) (Lookahead δ)
  | .aluEnable => .ok { l with machine := { l.machine with bus := l.stored } }
  | s => l.lift (l.machine.drive s)

def latch (address : Word) (l : Lookahead δ) (s : Signal) :
    Except (Lookahead δ × MachineError) (Lookahead δ) :=
  (l.lift (l.machine.latch address s)).map fun l => if s = .aIn ∨ s = .bIn then l.compute else l

def assert (l : Lookahead δ) (w : ControlWord) :
    Except (Lookahead δ × MachineError) (Lookahead δ) := do
  let address := l.machine.registers.address
  let l ← (w.unitDrivers ++ w.registerDrivers).foldlM drive l
  let l ← w.latchers.foldlM (latch address) l
  return { l with machine := l.machine.finish w }

def conclude (w : ControlWord) :
    Except (Lookahead δ × MachineError) (Lookahead δ) →
      Lookahead δ × Except MachineError TickReport
  | .ok l =>
    let decoded := if w.contains .instructionIn then l.machine.current else none
    ({ l with machine := l.machine.settle }, .ok ⟨w, decoded, l.machine.bus⟩)
  | .error (l, e) => ({ l with machine := l.machine.settle.fault e }, .error e)

def tick (l : Lookahead δ) : Lookahead δ × Except MachineError TickReport :=
  if l.machine.isRunning then
    let word := l.machine.word
    conclude word
      ({ l with machine := l.machine.begun.note (.tick l.machine.ticks word) }.assert word)
  else (l, .error (.notRunning l.machine.condition))

def after (l : Lookahead δ) : Nat → Lookahead δ
  | 0 => l
  | n + 1 => (l.after n).tick.1

end Lookahead

open Machine

/-- the word that every sum comes right behind -/
def loadB : ControlWord := .ofList [.memoryOut, .bIn]

/-- the word of a comparison that drives the arithmetic unit -/
def compareWord : ControlWord := .ofList [.aluEnable, .subtract, .flagsIn]

theorem mem_zip_tail {α : Type} (before : List α) (x y : α) (rest : List α) :
    (x, y) ∈ (before ++ x :: y :: rest).zip (before ++ x :: y :: rest).tail := by
  induction before with
  | nil => exact List.mem_cons_self
  | cons z before ih =>
    cases before with
    | nil => exact List.mem_cons_of_mem _ ih
    | cons z' before => exact List.mem_cons_of_mem _ ih

/-- where an instruction drives the arithmetic unit -/
theorem unit_word {op : Opcode} {before rest : List ControlWord} {v w : ControlWord}
    (split : fetch ++ op.microprogram.words = before ++ v :: w :: rest)
    (drives : w.contains .aluEnable) :
    op = .compare ∧ w = compareWord ∨ op ≠ .compare ∧ v = loadB ∧
      (if w.contains .subtract then .subtract else .add) = op.microprogram.operation := by
  have all : ∀ o ∈ Opcode.all, ∀ p ∈
      (fetch ++ o.microprogram.words).zip (fetch ++ o.microprogram.words).tail,
      p.2.contains .aluEnable → o = .compare ∧ p.2 = compareWord ∨ o ≠ .compare ∧ p.1 = loadB ∧
        (if p.2.contains .subtract then .subtract else .add) = o.microprogram.operation := by
    decide
  refine all op op.mem_all (v, w) ?_ drives
  rw [split]
  exact mem_zip_tail before v w rest

namespace Lookahead

variable {δ : Type}

/-- a failure on either side, with machines alike -/
def FailsLike (f : Lookahead δ × MachineError) (g : Failure δ) : Prop :=
  f.1.machine.Alike g.machine ∧ f.2 = g.error

theorem agree_lift (l : Lookahead δ) {x y : Except (Failure δ) (Machine δ)}
    (h : Agree Failure.Alike Alike x y) :
    Agree FailsLike (fun k n => k.machine.Alike n ∧ k.stored = l.stored) (l.lift x) y := by
  cases x <;> cases y
  · exact h
  · exact h.elim
  · exact h.elim
  · exact ⟨h, rfl⟩

section

variable {l : Lookahead δ} {m : Machine δ}

theorem word_eq (alike : l.machine.Alike m) : l.machine.word = m.word := by
  obtain ⟨bus, journal, rfl⟩ := alike.exists_eq
  rfl

theorem isRunning_eq (alike : l.machine.Alike m) : l.machine.isRunning = m.isRunning := by
  obtain ⟨bus, journal, rfl⟩ := alike.exists_eq
  rfl

theorem alike_begun (alike : l.machine.Alike m) (e f : Event) :
    (l.machine.begun.note e).Alike (m.begun.note f) := by
  obtain ⟨bus, journal, rfl⟩ := alike.exists_eq
  rfl

end

variable [Peripheral δ]

theorem agree_drive {l : Lookahead δ} {m : Machine δ} {s : Signal} (alike : l.machine.Alike m)
    (fresh : s = .aluEnable → l.stored = m.alu.result m.operation) :
    Agree FailsLike (fun k n => k.machine.Alike n ∧ k.stored = l.stored)
      (l.drive s) (m.drive s) := by
  by_cases unit : s = .aluEnable
  · subst unit
    obtain ⟨bus, journal, rfl⟩ := alike.exists_eq
    refine ⟨?_, rfl⟩
    rw [fresh rfl]
    rfl
  · have same : l.drive s = l.lift (l.machine.drive s) := by
      cases s <;> first | rfl | contradiction
    rw [same]
    exact agree_lift l (alike.drive s)

theorem agree_latch {l : Lookahead δ} {m : Machine δ} (alike : l.machine.Alike m) (a : Word)
    (s : Signal) :
    Agree FailsLike (fun k n => k.machine.Alike n) (latch a l s) (m.latch a s) := by
  have h := agree_lift l (alike.latch a s)
  unfold latch
  generalize l.lift (l.machine.latch a s) = x at h
  cases x <;> cases hy : m.latch a s <;> rw [hy] at h
  · exact h
  · exact h.elim
  · exact h.elim
  · simp only [Except.map]
    split <;> exact h.1

theorem mem_drivers {w : ControlWord} {s : Signal}
    (h : s ∈ w.unitDrivers ++ w.registerDrivers) : w.contains s := by
  rw [List.mem_append] at h
  obtain h | h := h <;> exact ControlWord.mem_toList.1 (List.mem_filter.1 h).1

theorem agree_assert {l : Lookahead δ} {m : Machine δ} {w : ControlWord}
    (alike : l.machine.Alike m)
    (fresh : w.contains .aluEnable → l.stored = m.alu.result m.operation) :
    Agree FailsLike (fun k n => k.machine.Alike n) (l.assert w) (m.assert w) := by
  have address : l.machine.registers.address = m.registers.address := by
    obtain ⟨bus, journal, rfl⟩ := alike.exists_eq
    rfl
  unfold assert Machine.assert
  rw [address]
  have driven : Agree FailsLike
      (fun k n => k.machine.Alike n ∧ (w.contains .aluEnable → k.stored = n.alu.result n.operation))
      ((w.unitDrivers ++ w.registerDrivers).foldlM drive l)
      ((w.unitDrivers ++ w.registerDrivers).foldlM Machine.drive m) := by
    refine Agree.foldlM _ ?_ ⟨alike, fresh⟩
    intro s hs k n h
    have unit : s = .aluEnable → k.stored = n.alu.result n.operation := by
      rintro rfl
      exact h.2 (mem_drivers hs)
    have next := agree_drive h.1 unit
    cases hk : k.drive s <;> cases hn : n.drive s <;> rw [hk, hn] at next
    · exact next
    · exact next.elim
    · exact next.elim
    · refine ⟨next.1, fun asked => ?_⟩
      rw [next.2, h.2 asked, drive_frame hn]
  refine Agree.bind driven ?_
  intro k n h
  have latched : Agree FailsLike (fun k n => k.machine.Alike n)
      (w.latchers.foldlM (latch m.registers.address) k)
      (w.latchers.foldlM (Machine.latch m.registers.address) n) :=
    Agree.foldlM _ (fun s _ _ _ h => agree_latch h _ s) h.1
  refine Agree.bind latched ?_
  intro k n h
  have done : (k.machine.finish w).Alike (n.finish w) := Alike.finish h w
  exact done

theorem assert_compare (l : Lookahead δ) :
    l.assert compareWord = .ok { l with machine := { l.machine with bus := l.stored } } := by
  have drivers : compareWord.unitDrivers ++ compareWord.registerDrivers = [.aluEnable] := by decide
  have latchers : compareWord.latchers = [.flagsIn] := by decide
  unfold assert
  rw [drivers, latchers]
  rfl

/-- two ticks with like machines behind them and the same answer -/
structure Same (x : Lookahead δ × Except MachineError TickReport)
    (y : Machine δ × Except MachineError TickReport) : Prop where
  alike : x.1.machine.Alike y.1
  lastBus : x.1.machine.lastBus = y.1.lastBus
  answer : x.2 = y.2

theorem same_conclude (w : ControlWord)
    {x : Except (Lookahead δ × MachineError) (Lookahead δ)} {y : Except (Failure δ) (Machine δ)}
    (h : Agree FailsLike (fun k n => k.machine.Alike n) x y) :
    Same (conclude w x) (Machine.conclude w y) := by
  cases x with
  | error f => cases y with
    | error g =>
      obtain ⟨alike, same⟩ := h
      obtain ⟨bus, journal, eq⟩ := alike.exists_eq
      simp only [conclude, Machine.conclude, eq, same]
      exact ⟨rfl, rfl, rfl⟩
    | ok n => exact h.elim
  | ok k => cases y with
    | error g => exact h.elim
    | ok n =>
      obtain ⟨bus, journal, eq⟩ := Alike.exists_eq h
      simp only [conclude, Machine.conclude, eq]
      exact ⟨rfl, rfl, rfl⟩

theorem tick_running {l : Lookahead δ} (running : l.machine.isRunning) :
    l.tick = conclude l.machine.word ({ l with
      machine := l.machine.begun.note (.tick l.machine.ticks l.machine.word) }.assert
        l.machine.word) := by
  unfold tick
  rw [if_pos running]

theorem tick_stopped {l : Lookahead δ} (stopped : ¬ l.machine.isRunning) :
    l.tick = (l, .error (.notRunning l.machine.condition)) := by
  unfold tick
  rw [if_neg stopped]

section

variable {l : Lookahead δ} {m : Machine δ}

theorem same_tick (alike : l.machine.Alike m) (running : m.isRunning)
    (fresh : m.word.contains .aluEnable → l.stored = m.alu.result m.operation) :
    Same l.tick m.tick := by
  rw [tick_running ((isRunning_eq alike).trans running), Machine.tick_running running,
    word_eq alike]
  exact same_conclude _ (agree_assert (alike_begun alike _ _) fresh)

theorem tick_comparing (alike : l.machine.Alike m) (running : m.isRunning)
    (comparing : m.word = compareWord) :
    l.tick.1.machine.Alike m.tick.1 ∧ m.tick.1.isRunning ∧
      ∃ report bus, m.tick.2 = .ok report ∧ l.tick.2 = .ok { report with bus } := by
  have real (n : Machine δ) :
      n.assert compareWord = .ok { n with bus := n.alu.result n.operation } := assert_flags n
  rw [tick_running ((isRunning_eq alike).trans running), Machine.tick_running running,
    word_eq alike, comparing, real, assert_compare]
  obtain ⟨bus, journal, rfl⟩ := alike.exists_eq
  exact ⟨rfl, running, ⟨compareWord, none, _⟩, l.stored, rfl, rfl⟩

theorem stored_assert {k : Lookahead δ} (h : l.assert loadB = .ok k) :
    k.stored = k.sign.apply k.machine.alu.a k.machine.alu.b := by
  have latchers : loadB.latchers = [.bIn] := by decide
  unfold assert at h
  rw [latchers] at h
  obtain ⟨driven, -, h⟩ := exists_ok_of_bind h
  cases h
  rfl

/-- behind a word that latches `B` the sum is that of the operands taken -/
theorem stored_tick {report : TickReport} (running : l.machine.isRunning)
    (loads : l.machine.word = loadB) (done : l.tick.2 = .ok report) :
    l.tick.1.stored = l.tick.1.sign.apply l.tick.1.machine.alu.a l.tick.1.machine.alu.b := by
  rw [tick_running running, loads] at done ⊢
  generalize h : assert { l with machine := l.machine.begun.note (.tick l.machine.ticks loadB) }
    loadB = x at done ⊢
  cases x with
  | error f => cases done
  | ok k =>
    have stored := stored_assert h
    exact stored

end

end Lookahead

theorem Place.driving {δ : Type} {m : Machine δ} {past : List Opcode} {words : List ControlWord}
    (h : Place m.control past words) (drives : m.word.contains .aluEnable) :
    ∃ op earlier before v rest, words = earlier ++ (before ++ [v]) ∧
      fetch ++ op.microprogram.words = before ++ v :: m.word :: rest ∧
      m.queue = m.word :: rest ∧ m.current = some op ∧
      m.operation = op.microprogram.operation := by
  have fetching (j : Nat) (short : j < 3) (pending : m.pending = fetch.drop j) : False := by
    rw [word, pending] at drives
    have none : ∀ i < 3, ((fetch.drop i).headD .empty).contains .aluEnable = false := by decide
    rw [none j short] at drives
    contradiction
  cases h with
  | idle queue phase =>
    have queue : m.queue = [] := queue
    exact (fetching 0 (by decide) (by simp [pending, queue])).elim
  | opening j lower upper queue phase =>
    have some : fetch.drop j ≠ [] := by
      rw [← List.length_pos_iff, List.length_drop, fetch_length]
      omega
    exact (fetching j (by omega) (pending_of_queue queue some)).elim
  | @within past op spent decoded split pending phase current sign =>
    obtain ⟨w, rest, queue⟩ := List.exists_cons_of_ne_nil pending
    have word : m.word = w := word_of_pending (pending_of_queue queue (List.cons_ne_nil w rest))
    have some : spent ≠ [] := by
      rintro rfl
      contradiction
    obtain ⟨before, v, rfl⟩ : ∃ before v, spent = before ++ [v] :=
      ⟨spent.dropLast, spent.getLast some, (List.dropLast_concat_getLast some).symm⟩
    refine ⟨op, script past, before, v, rest, rfl, ?_, ?_, current, sign⟩
    · rw [word, split, queue, List.append_assoc]
      rfl
    · rw [word]
      exact queue

namespace Lookahead

variable {δ : Type} [Peripheral δ]

/-- both machines at the same place of a run, with a stored sum that is right where it is used -/
structure Sim (l : Lookahead δ) (m : Machine δ) : Prop where
  alike : l.machine.Alike m
  lastBus : ¬ m.isRunning → l.machine.lastBus = m.lastBus
  place : m.isRunning → ∃ past words, Place m.control past words
  fresh : m.isRunning → m.word.contains .aluEnable → m.current ≠ some .compare →
    l.stored = m.alu.result m.operation

/-- the answers to a tick agree, but for the bus where a comparison drives the unit -/
def Answers (l : Lookahead δ) (m : Machine δ) : Prop :=
  l.tick.2 = m.tick.2 ∧ l.tick.1.machine.lastBus = m.tick.1.lastBus ∨
    m.word.contains .aluEnable ∧ m.current = some .compare ∧
      ∃ report bus, m.tick.2 = .ok report ∧ l.tick.2 = .ok { report with bus }

theorem answers_tick {l : Lookahead δ} {m : Machine δ} (h : Sim l m) :
    l.tick.1.machine.Alike m.tick.1 ∧ (m.tick.1.isRunning ∨
      l.tick.1.machine.lastBus = m.tick.1.lastBus) ∧ Answers l m := by
  by_cases running : m.isRunning
  · by_cases comparing : m.word.contains .aluEnable ∧ m.current = some .compare
    · obtain ⟨drives, current⟩ := comparing
      obtain ⟨past, words, place⟩ := h.place running
      obtain ⟨op, -, before, v, rest, -, split, -, decoded, -⟩ := place.driving drives
      obtain ⟨-, word⟩ | ⟨other, -⟩ := unit_word split drives
      · obtain ⟨alike, runs, answers⟩ := tick_comparing h.alike running word
        exact ⟨alike, .inl runs, .inr ⟨drives, current, answers⟩⟩
      · rw [decoded] at current
        exact absurd (Option.some.inj current) other
    · have same := same_tick h.alike running fun drives =>
        h.fresh running drives fun current => comparing ⟨drives, current⟩
      exact ⟨same.alike, .inr same.lastBus, .inl ⟨same.answer, same.lastBus⟩⟩
  · have stopped : ¬ l.machine.isRunning := by rwa [isRunning_eq h.alike]
    have condition : l.machine.condition = m.condition := by
      obtain ⟨bus, journal, eq⟩ := h.alike.exists_eq
      rw [eq]
    have answer : l.tick.2 = m.tick.2 := by
      rw [tick_stopped stopped, Machine.tick_stopped running, condition]
    have bus : l.tick.1.machine.lastBus = m.tick.1.lastBus := by
      rw [tick_stopped stopped, Machine.tick_stopped running]
      exact h.lastBus running
    refine ⟨?_, .inr bus, .inl ⟨answer, bus⟩⟩
    rw [tick_stopped stopped, Machine.tick_stopped running]
    exact h.alike

theorem sim_tick {l : Lookahead δ} {m : Machine δ} (h : Sim l m) : Sim l.tick.1 m.tick.1 := by
  obtain ⟨alike, ends, answers⟩ := answers_tick h
  refine ⟨alike, fun stopped => ends.resolve_left stopped, ?_, ?_⟩
  · intro runs
    obtain ⟨past, words, place⟩ := h.place (isRunning_of_tick runs)
    exact ⟨_, _, place_tick place runs⟩
  · intro runs drives other
    have running := isRunning_of_tick runs
    obtain ⟨past, words, place⟩ := h.place running
    obtain ⟨op, earlier, before, v, rest, all, split, queue, current, sign⟩ :=
      (place_tick place runs).driving drives
    have word : m.word = v := by
      rw [← List.append_assoc] at all
      exact List.singleton_inj.1 (List.append_inj_right' all rfl)
    obtain ⟨same, -⟩ | ⟨-, loads, asked⟩ := unit_word split drives
    · rw [current, same] at other
      contradiction
    · rw [loads] at word
      have silent : m.word.contains .aluEnable = false := by rw [word]; decide
      have answer : l.tick.2 = m.tick.2 := by
        obtain ⟨answer, -⟩ | ⟨drives, -⟩ := answers
        · exact answer
        · rw [silent] at drives
          contradiction
      obtain ⟨⟨bus, report⟩, -⟩ := tick_control runs
      rw [stored_tick (by rwa [isRunning_eq h.alike]) (by rwa [word_eq h.alike])
        (answer.trans report)]
      obtain ⟨bus, journal, eq⟩ := Alike.exists_eq alike.symm
      rw [Lookahead.sign, eq]
      dsimp only
      rw [queue, List.headD_cons, asked, ← sign]
      rfl

theorem sim_after {l : Lookahead δ} {m : Machine δ} (h : Sim l m) (n : Nat) :
    Sim (l.after n) (m.after n) := by
  induction n with
  | zero => exact h
  | succ n ih => exact sim_tick ih

/-- the machine that fixes the sign at decoding runs like the one that looks ahead -/
theorem lookahead_agrees (image : Image) (memorySize : Nat) (devices : List δ) (stored : Word)
    (n : Nat) :
    let m := (boot image memorySize devices).after n
    let l := Lookahead.after ⟨boot image memorySize devices, stored⟩ n
    (∃ bus journal, l.machine = { m with lastBus := bus, journal }) ∧ Answers l m := by
  intro m l
  obtain ⟨queue, phase⟩ := idle_boot image memorySize devices
  have first : Sim ⟨boot image memorySize devices, stored⟩ (boot image memorySize devices) := by
    have place : Place (boot image memorySize devices).control [] [] := .idle queue phase
    refine ⟨rfl, fun _ => rfl, fun _ => ⟨_, _, place⟩, fun _ drives _ => ?_⟩
    have word : (boot image memorySize devices).word = fetch.headD .empty := by
      simp [word, pending, queue]
    rw [word] at drives
    exact absurd drives (by decide)
  have sim : Sim l m := sim_after first n
  exact ⟨Alike.exists_eq sim.alike.symm, (answers_tick sim).2.2⟩

-- a comparison does drive what was stored before
example :
    (Lookahead.after (δ := Device) ⟨boot ⟨0, [.of .compare 2]⟩ 16 [], 1⟩ 8).tick.2 ≠
      ((boot (δ := Device) ⟨0, [.of .compare 2]⟩ 16 []).after 8).tick.2 := by decide

end Lookahead

end OneBus
