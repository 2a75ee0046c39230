import OneBus.Proofs.Executed

/-!
What a tick leaves behind that ends in a fault. A word takes effect line by line and stops where an
access is not possible, so in general something may have changed by then. The words of the fetch
and of the opcodes have one latch each, and of those that ask a device none can fail behind it, so
nothing but the bus has changed, except that a word that is no opcode is already in the instruction
register. That happens in the third tick of an instruction only, with `Address` on the program
counter.
-/

namespace OneBus

/-- the word that was read as an opcode and is none -/
def MachineError.opcode? : MachineError → Option Word
  | .invalidOpcode code _ => some code
  | _ => none

/-- an access to a cell or a port that is not there -/
def MachineError.isAccess : MachineError → Bool
  | .memory _ | .port _ => true
  | _ => false

theorem MachineError.opcode?_of_isAccess {e : MachineError} (access : e.isAccess) :
    e.opcode? = none := by
  cases e <;> first | rfl | cases access

theorem Opcode.ofId?_eq_none_iff {code : Word} :
    ofId? code = none ↔ code.toInt < 0 ∨ 46 < code.toInt := by
  have count : all.length = 47 := rfl
  constructor
  · intro unknown
    by_contra inside
    have place : code.index? = some code.toNat := Word.index?_eq_some_iff.2 ⟨by omega, rfl⟩
    have bound : code.toNat < all.length := by
      have := BitVec.toInt_eq_toNat_cond code
      have := code.isLt
      rw [count]
      omega
    rw [ofId?, place, Option.bind_some, List.getElem?_eq_getElem bound] at unknown
    cases unknown
  · intro outside
    rw [ofId?, Option.bind_eq_none_iff]
    intro i place
    obtain ⟨nonneg, rfl⟩ := Word.index?_eq_some_iff.1 place
    have := BitVec.toInt_eq_toNat_cond code
    have := code.isLt
    exact List.getElem?_eq_none (by omega)

theorem ControlWord.modest_of_mem {op : Opcode} {w : ControlWord}
    (h : w ∈ fetch ++ op.microprogram.words) :
    w.latchers.length ≤ 1 ∧
      (w.contains .peripheralOut → w = .ofList [.peripheralOut, .ioIn]) ∧
      (w.contains .instructionIn →
        w = .ofList [.memoryOut, .instructionIn, .programCounterIncrement]) := by
  have all : ∀ o ∈ Opcode.all, ∀ w ∈ fetch ++ o.microprogram.words, w.latchers.length ≤ 1 ∧
      (w.contains .peripheralOut → w = .ofList [.peripheralOut, .ioIn]) ∧
      (w.contains .instructionIn →
        w = .ofList [.memoryOut, .instructionIn, .programCounterIncrement]) := by decide +kernel
  exact all op op.mem_all w h

theorem PortTable.values_disconnectAll {δ : Type} [Peripheral δ] (t : PortTable δ) :
    t.disconnectAll.values = t.values := by
  simp [values_eq, List.zipIdx_map, Function.comp_def, Port.map]

namespace Machine

variable {δ : Type} [Peripheral δ]

theorem drive_error {m : Machine δ} {s : Signal} {f : Failure δ} (fails : m.drive s = .error f) :
    f.machine = m ∧ f.error.isAccess := by
  cases s with
  | memoryOut =>
    simp only [drive] at fails
    cases read : m.memory.read m.registers.address <;> rw [read] at fails <;> cases fails
    exact ⟨rfl, rfl⟩
  | peripheralOut =>
    simp only [drive] at fails
    cases answer : m.ports.drive m.registers.b <;> rw [answer] at fails <;> cases fails
    exact ⟨rfl, rfl⟩
  | _ => cases fails

theorem drive_bus {m n : Machine δ} {s : Signal} (silent : s ≠ .peripheralOut)
    (driven : m.drive s = .ok n) : n = { m with bus := n.bus } := by
  cases s with
  | peripheralOut => contradiction
  | memoryOut =>
    simp only [drive] at driven
    cases read : m.memory.read m.registers.address <;> rw [read] at driven <;> cases driven
    rfl
  | _ =>
    cases driven
    rfl

/-- the latch that decodes is alone in leaving anything behind when it fails -/
theorem latch_error {a : Word} {m : Machine δ} {s : Signal} {f : Failure δ}
    (plain : s ≠ .instructionIn) (fails : m.latch a s = .error f) :
    f.machine = m ∧ f.error.isAccess := by
  cases s with
  | instructionIn => contradiction
  | memoryIn =>
    simp only [latch] at fails
    cases write : m.memory.write a m.bus <;> rw [write] at fails <;> cases fails
    exact ⟨rfl, rfl⟩
  | peripheralIn =>
    simp only [latch] at fails
    cases write : m.ports.write a m.bus <;> rw [write] at fails <;> cases fails
    exact ⟨rfl, rfl⟩
  | _ => cases fails

theorem assert_opcode_error {m : Machine δ} {f : Failure δ}
    (fails : m.assert (.ofList [.memoryOut, .instructionIn, .programCounterIncrement]) = .error f) :
    f.error.isAccess ∧ f.machine = m ∨
      ∃ code, m.memory.read m.registers.address = .ok code ∧ Opcode.ofId? code = none ∧
        f = ⟨{ m with registers := { m.registers with instruction := code }, bus := code },
          .invalidOpcode code m.registers.address⟩ := by
  cases read : m.memory.read m.registers.address with
  | error e =>
    rw [assert_fetch_error (.inl rfl) read] at fails
    cases fails
    exact .inl ⟨rfl, rfl⟩
  | ok code =>
    cases known : Opcode.ofId? code with
    | some op =>
      rw [assert_opcode read known] at fails
      cases fails
    | none =>
      rw [assert_opcode_unknown read known] at fails
      cases fails
      exact .inr ⟨code, rfl, known, rfl⟩

theorem drivers_bus {m n : Machine δ} {l : List Signal} (silent : ∀ s ∈ l, s ≠ .peripheralOut)
    (driven : l.foldlM drive m = .ok n) : n = { m with bus := n.bus } := by
  refine foldlM_keeps (P := fun k => k = { m with bus := k.bus }) l ?_ rfl driven
  intro s mem j k same driven
  rw [drive_bus (silent s mem) driven, same]

theorem drivers_error {m : Machine δ} {l : List Signal} {f : Failure δ}
    (silent : ∀ s ∈ l, s ≠ .peripheralOut) (fails : l.foldlM drive m = .error f) :
    f.error.isAccess ∧ f.machine = { m with bus := f.machine.bus } := by
  obtain ⟨before, s, after, n, rfl, reached, fails⟩ := exists_error_of_foldlM fails
  obtain ⟨same, kind⟩ := drive_error fails
  rw [same]
  exact ⟨kind, drivers_bus (fun s mem => silent s (List.mem_append_left _ mem)) reached⟩

theorem latchers_error {a : Word} {m : Machine δ} {l : List Signal} {f : Failure δ}
    (single : l.length ≤ 1) (plain : ∀ s ∈ l, s ≠ .instructionIn)
    (fails : l.foldlM (latch a) m = .error f) : f.error.isAccess ∧ f.machine = m := by
  obtain ⟨before, s, after, n, rfl, reached, fails⟩ := exists_error_of_foldlM fails
  have first : before = [] := by
    rw [List.length_append, List.length_cons] at single
    exact List.length_eq_zero_iff.1 (by omega)
  rw [first] at reached
  cases reached
  exact (latch_error (plain s (by simp)) fails).symm

theorem assert_error {m : Machine δ} {w : ControlWord} {f : Failure δ}
    (single : w.latchers.length ≤ 1) (silent : w.contains .peripheralOut = false)
    (plain : w.contains .instructionIn = false) (fails : m.assert w = .error f) :
    f.error.isAccess ∧ f.machine = { m with bus := f.machine.bus } := by
  have drivers : ∀ s ∈ w.unitDrivers ++ w.registerDrivers, s ≠ .peripheralOut := by
    rintro s mem rfl
    rcases List.mem_append.1 mem with mem | mem <;>
      exact absurd (ControlWord.mem_toList.1 (List.mem_filter.1 mem).1) (by simp [silent])
  have latchers : ∀ s ∈ w.latchers, s ≠ .instructionIn := by
    rintro s mem rfl
    exact absurd (ControlWord.mem_toList.1 (List.mem_filter.1 mem).1) (by simp [plain])
  unfold assert at fails
  cases driven : (w.unitDrivers ++ w.registerDrivers).foldlM drive m with
  | error g =>
    rw [driven] at fails
    cases fails
    exact drivers_error drivers driven
  | ok n =>
    rw [driven] at fails
    change (w.latchers.foldlM (latch m.registers.address) n >>= _) = _ at fails
    cases latched : w.latchers.foldlM (latch m.registers.address) n with
    | ok k =>
      rw [latched] at fails
      cases fails
    | error g =>
      rw [latched] at fails
      cases fails
      obtain ⟨kind, same⟩ := latchers_error single latchers latched
      rw [same]
      exact ⟨kind, drivers_bus drivers driven⟩

/-- a word of an instruction that fails has left what it read as an opcode, and nothing else -/
theorem assert_word_error {m : Machine δ} {op : Opcode} {w : ControlWord} {f : Failure δ}
    (mem : w ∈ fetch ++ op.microprogram.words) (fails : m.assert w = .error f) :
    (f.error.isAccess ∨ f.error.opcode?.isSome ∧ w.contains .instructionIn) ∧
      f.machine = { m with
        bus := f.machine.bus
        registers := { m.registers with
          instruction := f.error.opcode?.getD m.registers.instruction } } := by
  obtain ⟨single, asks, decodes⟩ := ControlWord.modest_of_mem mem
  cases plain : w.contains .instructionIn with
  | true =>
    rw [decodes plain] at fails
    rcases assert_opcode_error fails with ⟨access, same⟩ | ⟨code, -, -, rfl⟩
    · rw [MachineError.opcode?_of_isAccess access, same]
      exact ⟨.inl access, rfl⟩
    · exact ⟨.inr ⟨rfl, rfl⟩, rfl⟩
  | false =>
    have kept : f.error.isAccess ∧ f.machine = { m with bus := f.machine.bus } := by
      cases silent : w.contains .peripheralOut with
      | false => exact assert_error single silent plain fails
      | true =>
        rw [asks silent] at fails
        cases answer : m.ports.drive m.registers.b with
        | ok answer =>
          rw [assert_input answer] at fails
          cases fails
        | error e =>
          rw [assert_input_error answer] at fails
          cases fails
          exact ⟨rfl, rfl⟩
    rw [MachineError.opcode?_of_isAccess kept.1]
    exact ⟨.inl kept.1, kept.2⟩

/-- what is left behind a tick that ended in a fault: all data, but for what was read as an opcode -/
structure Spared (e : MachineError) (m n : Machine δ) : Prop where
  memory : n.memory = m.memory
  alu : n.alu = m.alu
  values : n.ports.values = m.ports.values
  ports : n.ports = m.ports.disconnectAll
  registers : ∀ r ≠ .instruction, n.registers.get r = m.registers.get r
  instruction : n.registers.instruction = e.opcode?.getD m.registers.instruction
  sign : n.operation = m.operation
  current : n.current = m.current
  instructions : n.instructions = m.instructions
  ticks : n.ticks = m.ticks + 1
  condition : n.condition = .faulted
  queue : n.queue = []
  phase : n.phase = .idle

omit [Peripheral δ] in
theorem word_of_place {m : Machine δ} {past : List Opcode} {words : List ControlWord}
    (h : Place m.control past words) : ∃ op : Opcode, m.word ∈ fetch ++ op.microprogram.words := by
  have opened {queue : List ControlWord} (pending : m.pending = queue) (some : queue ≠ [])
      {op : Opcode} (part : queue ⊆ fetch ++ op.microprogram.words) :
      m.word ∈ fetch ++ op.microprogram.words := by
    obtain ⟨w, rest, rfl⟩ := List.exists_cons_of_ne_nil some
    rw [word_of_pending pending]
    exact part List.mem_cons_self
  cases h with
  | idle queue phase =>
    have queue : m.queue = [] := queue
    have pending : m.pending = fetch := by simp [pending, queue]
    exact ⟨.halt, opened pending (by decide) (List.subset_append_left _ _)⟩
  | opening j lower upper queue phase =>
    have some : fetch.drop j ≠ [] := by
      obtain rfl | rfl : j = 1 ∨ j = 2 := by omega
      · decide
      · decide
    exact ⟨.halt, opened (pending_of_queue queue some) some
      (List.Subset.trans (List.drop_subset j fetch) (List.subset_append_left _ _))⟩
  | within op spent decoded split some phase current sign =>
    refine ⟨op, opened (pending_of_queue rfl some) some ?_⟩
    rw [split]
    exact List.subset_append_right _ _

theorem isRunning_of_error {m : Machine δ} {e : MachineError} (fails : m.tick.2 = .error e)
    (genuine : ∀ condition, e ≠ .notRunning condition) : m.isRunning := by
  by_contra stopped
  rw [tick_stopped stopped] at fails
  exact genuine _ (Except.error.inj fails).symm

theorem exists_failure {m : Machine δ} (running : m.isRunning) {e : MachineError}
    (fails : m.tick.2 = .error e) :
    ∃ f : Failure δ, (m.begun.note (.tick m.ticks m.word)).assert m.word = .error f ∧
      f.error = e ∧ m.tick.1 = f.machine.settle.fault e := by
  rw [tick_running running] at fails ⊢
  cases outcome : (m.begun.note (.tick m.ticks m.word)).assert m.word with
  | ok n =>
    rw [outcome] at fails
    cases fails
  | error f =>
    rw [outcome] at fails
    obtain rfl : f.error = e := Except.error.inj fails
    exact ⟨f, rfl, rfl, rfl⟩

theorem spared_tick {m : Machine δ} (running : m.isRunning) {op : Opcode}
    (mem : m.word ∈ fetch ++ op.microprogram.words) {e : MachineError}
    (fails : m.tick.2 = .error e) :
    (e.isAccess ∨ e.opcode?.isSome ∧ m.word.contains .instructionIn) ∧ Spared e m m.tick.1 := by
  obtain ⟨f, failed, rfl, behind⟩ := exists_failure running fails
  obtain ⟨cause, same⟩ := assert_word_error mem failed
  refine ⟨cause, ?_⟩
  rw [behind, same]
  exact {
    memory := rfl
    alu := rfl
    values := PortTable.values_disconnectAll _
    ports := rfl
    registers := fun r other => by cases r <;> first | contradiction | rfl
    instruction := rfl
    sign := rfl
    current := rfl
    instructions := rfl
    ticks := rfl
    condition := rfl
    queue := rfl
    phase := rfl }

theorem third_error {m : Machine δ} (running : m.isRunning) (empty : m.queue = [])
    {code a : Word} (fails : (m.after 2).tick.2 = .error (.invalidOpcode code a)) :
    a = m.counter ∧ m.memory.read a = .ok code ∧ Opcode.ofId? code = none := by
  cases read : m.memory.read m.counter with
  | error e =>
    rw [(sameEnd_third running empty).2, assert_fetch_error (m := { m.seeking.during 2
      (fetch.drop 2) with queue := fetch.drop 3, phase := .executing }) (.inl rfl) read] at fails
    cases fails
  | ok v =>
    have decodes := (after_third running empty read).2.2
    cases known : Opcode.ofId? v with
    | none =>
      rw [third_fails running empty read known] at fails
      cases fails
      exact ⟨rfl, read, known⟩
    | some op =>
      rw [known, Machine.decodes?, fails] at decodes
      cases decodes

/-- two ticks into an instruction nothing has changed but the registers that address memory -/
theorem after_second {m : Machine δ} (running : m.isRunning) (empty : m.queue = []) :
    (m.after 2).counter = m.counter ∧ (m.after 2).memory = m.memory := by
  obtain ⟨bus, journal, eq⟩ := Alike.exists_eq (after_seeking running empty).symm
  rw [eq]
  exact ⟨rfl, rfl⟩

theorem invalid_start {m : Machine δ} (queue : m.queue = []) (phase : m.phase = .idle) {n : Nat}
    {code a : Word} (fails : (m.after n).tick.2 = .error (.invalidOpcode code a))
    (decodes : (m.after n).word.contains .instructionIn) :
    ∃ i, n = i + 2 ∧ (m.after i).isRunning ∧ (m.after i).phase = .idle ∧
      (m.after i).counter = a ∧ (m.after n).counter = a ∧ (m.after n).memory.read a = .ok code ∧
      Opcode.ofId? code = none := by
  have runs := isRunning_of_error fails nofun
  have words := place_decoding (place_after queue phase runs) decodes
  have count := (counters_after m runs).2.1
  rw [words, List.length_append, length_script] at count
  have start : n = duration (m.history n) + 2 := count.symm
  obtain ⟨empty, idle⟩ := idle_at_duration queue phase runs List.prefix_rfl (by omega)
  generalize duration (m.history n) = i at *
  have started : (m.after i).isRunning := isRunning_of_le (by omega) runs
  have behind : m.after n = (m.after i).after 2 := by rw [start, after_add]
  obtain ⟨counter, memory⟩ := after_second started empty
  rw [behind] at fails ⊢
  obtain ⟨rfl, read, unknown⟩ := third_error started empty fails
  exact ⟨i, start, started, idle, rfl, counter, memory ▸ read, unknown⟩

/-- a tick that faults leaves the data as it was -/
theorem fault_spares (image : Image) (memorySize : Nat) (devices : List δ) (n : Nat)
    (e : MachineError)
    (fails : ((boot image memorySize devices).after n).tick.2 = .error e) :
    let start := boot image memorySize devices
    let m := start.after n
    (∀ condition, e = .notRunning condition → m.tick.1 = m) ∧
      ((∀ condition, e ≠ .notRunning condition) → Spared e m m.tick.1) ∧
      ∀ code a, e = .invalidOpcode code a → (code.toInt < 0 ∨ 46 < code.toInt) ∧
        m.counter = a ∧ m.memory.read a = .ok code ∧
        ∃ i, n = i + 2 ∧ (start.after i).isRunning ∧ (start.after i).phase = .idle ∧
          (start.after i).counter = a := by
  obtain ⟨queue, phase⟩ := idle_boot image memorySize devices
  intro start m
  have spared (running : m.isRunning) :
      (e.isAccess ∨ e.opcode?.isSome ∧ m.word.contains .instructionIn) ∧
        Spared e m m.tick.1 := by
    obtain ⟨op, mem⟩ := word_of_place (place_after queue phase running)
    exact spared_tick running mem fails
  refine ⟨?_, fun genuine => (spared (isRunning_of_error fails genuine)).2, ?_⟩
  · rintro condition rfl
    by_cases running : m.isRunning
    · rcases (spared running).1 with access | ⟨opcode, -⟩
      · cases access
      · cases opcode
    · rw [tick_stopped running]
  · rintro code a rfl
    have decodes : m.word.contains .instructionIn := by
      rcases (spared (isRunning_of_error fails nofun)).1 with access | ⟨-, decodes⟩
      · cases access
      · exact decodes
    obtain ⟨i, first, runs, idle, starts, counter, read, unknown⟩ :=
      invalid_start queue phase fails decodes
    exact ⟨Opcode.ofId?_eq_none_iff.1 unknown, counter, read, i, first, runs, idle, starts⟩

/-- behind an instruction that does nothing there is a word that is no opcode -/
theorem fault_spares_no_opcode :
    let start : Machine Device := boot ⟨0, [.of .jumpZero, ⟨-1, 5⟩]⟩ 16 [.mute]
    let m := start.after 8
    m.tick.2 = .error (.invalidOpcode (-1) 4) ∧ m.counter = 4 ∧
      m.memory.read 4 = .ok (-1) ∧ (start.after 6).phase = .idle ∧
      m.tick.1.memory = m.memory ∧ m.tick.1.registers.instruction = -1 ∧
      m.tick.1.registers.get .programCounter = m.registers.get .programCounter ∧
      m.tick.1.ticks = m.ticks + 1 ∧ m.tick.1.condition = .faulted := by
  intro start m
  have fails : m.tick.2 = .error (.invalidOpcode (-1) 4) := by decide
  obtain ⟨-, spared, invalid⟩ :=
    fault_spares ⟨0, [.of .jumpZero, ⟨-1, 5⟩]⟩ 16 [Device.mute] 8 _ fails
  obtain ⟨-, counter, read, i, first, -, idle, -⟩ := invalid (-1) 4 rfl
  have six : i = 6 := by omega
  rw [six] at idle
  have spared : Spared (.invalidOpcode (-1) 4) m m.tick.1 := spared nofun
  exact ⟨fails, counter, read, idle, spared.memory, spared.instruction,
    spared.registers .programCounter nofun, spared.ticks, spared.condition⟩

end Machine
end OneBus
