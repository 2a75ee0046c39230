import OneBus.Device
import OneBus.Proofs.Transfer

/-!
A step of the machine is one instruction: the six words of the fetch and the words of the opcode,
asserted one a tick, come to the transition of `Machine.instruct`, whatever is in the registers,
the memory and the devices, and also where an access fails.
-/

namespace OneBus
namespace Machine

variable {δ : Type} [Peripheral δ]

/-- `m` inside an instruction, so many ticks on -/
def during (m : Machine δ) (ticks : Nat) (queue : List ControlWord) : Machine δ :=
  { m with queue, bus := 0, phase := .executing, ticks := m.ticks + ticks }

section words

variable {m n : Machine δ} {v : Word} {ticks bound : Nat} {last : Option Opcode}

theorem word_more {w x : ControlWord} {rest : List ControlWord} (running : m.isRunning)
    (plain : w.contains .instructionIn = false)
    (assertion : (m.during ticks (x :: rest)).assert w =
      .ok { n.during ticks (x :: rest) with bus := v }) (runs : n.isRunning) :
    SameEnd (stepWithin (bound + 1) last (m.during ticks (w :: x :: rest)))
      (stepWithin bound last (n.during (ticks + 1) (x :: rest))) :=
  stepWithin_plain w (x :: rest) _ _ running rfl plain assertion rfl rfl runs

theorem word_last {w : ControlWord} (running : m.isRunning)
    (plain : w.contains .instructionIn = false)
    (assertion : (m.during ticks []).assert w = .ok { n.during ticks [] with bus := v }) :
    SameEnd (stepWithin (bound + 1) last (m.during ticks [w]))
      (n.resting.spend (ticks + 1), .ok last) :=
  stepWithin_last w _ _ running rfl plain assertion rfl rfl

theorem word_fault {w : ControlWord} {rest : List ControlWord} {e : MachineError}
    (running : m.isRunning)
    (assertion : (m.during ticks rest).assert w =
      .error ⟨{ n.during ticks rest with bus := v }, e⟩) :
    SameEnd (stepWithin (bound + 1) last (m.during ticks (w :: rest))) (n.broken (ticks + 1) e) :=
  stepWithin_fault (m := m.during ticks (w :: rest)) w rest _ _ running rfl assertion rfl

end words

section fetching

variable {m : Machine δ} (running : m.isRunning) (bound : Nat) (last : Option Opcode)

include running

theorem seeking_step (empty : m.queue = []) :
    SameEnd (stepWithin (bound + 2) last m)
      (stepWithin bound last (m.seeking.during 2 (fetch.drop 2))) := by
  have pending : m.pending = fetch := by simp [Machine.pending, empty]
  let backed := { m with registers := { m.registers with addressBackup := m.registers.address } }
  refine SameEnd.trans (stepWithin_plain (.ofList [.addressOut, .addressBackupIn]) (fetch.drop 1)
    (n := backed.during 1 (fetch.drop 1)) _ _
    running pending (by decide) (assert_pair rfl rfl _) rfl rfl running) ?_
  exact word_more running (by decide) (assert_pair rfl rfl _) running

theorem seeking_fault {e : MemoryError} (read : m.memory.read m.counter = .error e) :
    SameEnd (stepWithin (bound + 1) last (m.seeking.during 2 (fetch.drop 2)))
      (m.seeking.broken 3 (.memory e)) :=
  word_fault (m := m.seeking) (n := m.seeking) running (assert_fetch_error (.inl rfl) read)

theorem opening_fault {code : Word} (read : m.memory.read m.counter = .ok code)
    (unknown : Opcode.ofId? code = none) :
    SameEnd (stepWithin (bound + 1) last (m.seeking.during 2 (fetch.drop 2)))
      ((m.seeking.setRegister .instruction code).broken 3 (.invalidOpcode code m.counter)) :=
  word_fault (m := m.seeking) (n := m.seeking.setRegister .instruction code) running
    (assert_opcode_unknown read unknown)

theorem opening_step {code : Word} {op : Opcode}
    (read : m.memory.read m.counter = .ok code) (known : Opcode.ofId? code = some op) :
    SameEnd (stepWithin (bound + 2) last (m.seeking.during 2 (fetch.drop 2)))
      (stepWithin bound (some op)
        ((m.aiming op code).during 4 (fetch.drop 4 ++ op.microprogram.words))) := by
  have decoded := stepWithin_more (m := m.seeking.during 2 (fetch.drop 2))
    (n := (m.opened op code).during 3 (fetch.drop 3 ++ op.microprogram.words))
    (.ofList [.memoryOut, .instructionIn, .programCounterIncrement]) (fetch.drop 3) (bound + 1) last
    running rfl (assert_opcode read known) rfl rfl running
  refine SameEnd.trans decoded ?_
  exact word_more running (by decide) (assert_pair rfl rfl _) running

theorem operand_fault (code : Word) (op : Opcode) {e : MemoryError}
    (read : m.memory.read (m.counter + 1) = .error e) :
    SameEnd
      (stepWithin (bound + 1) last
        ((m.aiming op code).during 4 (fetch.drop 4 ++ op.microprogram.words)))
      ((m.aiming op code).broken 5 (.memory e)) :=
  word_fault (m := m.aiming op code) (n := m.aiming op code) running
    (assert_fetch_error (.inr rfl) read)

theorem operand_step {x : Word} (code : Word) (op : Opcode)
    (read : m.memory.read (m.counter + 1) = .ok x) :
    SameEnd
      (stepWithin (bound + 2) last
        ((m.aiming op code).during 4 (fetch.drop 4 ++ op.microprogram.words)))
      (if op.microprogram.words = [] then (((m.fetched op x).spend 6).resting, .ok last)
        else
          stepWithin bound last (((m.fetched op x).spend 6).during 0 op.microprogram.words)) := by
  let aimed := m.aiming op code
  let taken : Machine δ := { aimed with
    registers := { aimed.registers with instruction := x, programCounter := m.counter + 1 + 1 } }
  refine SameEnd.trans
    (word_more (n := taken) running (by decide) (assert_operand read) running) ?_
  have two : m.counter + 1 + 1 = m.counter + 2 := by rw [BitVec.add_assoc]; rfl
  have given (rest : List ControlWord) : (taken.during 5 rest).assert
      (.ofList [.addressBackupOut, .addressIn]) =
        .ok { (m.fetched op x).during 5 rest with bus := m.registers.address } := by
    rw [assert_transfer (s := .addressBackupOut) (t := .addressIn) rfl rfl (by decide)]
    simp only [taken, two]
    rfl
  -- without words of its own the instruction ends with the fetch
  cases op.microprogram.words with
  | nil =>
    rw [if_pos rfl]
    exact word_last (m := taken) running (by decide) (given [])
  | cons w rest =>
    rw [if_neg (List.cons_ne_nil _ _)]
    exact word_more (m := taken) running (by decide) (given (w :: rest)) running

end fetching

/-- the last two words of an arithmetic instruction, with `m` ahead of them -/
theorem arithmetic_step {n m : Machine δ} (bound : Nat) (op : Opcode) {w : ControlWord}
    {ticks : Nat} {o : Operation} (running : m.isRunning) (sign : m.operation = o)
    (drives : w = .ofList [.aluEnable, .accumulatorIn] ∨
      w = .ofList [.aluEnable, .accumulatorIn, .subtract])
    (performs : n.perform op = m.readCell m.registers.address >>= fun v =>
      .ok ((m.put .b v).put .accumulator (o.apply m.registers.a v)))
    (done : ∀ k, outcome n op (.ok k) = (k.resting.spend (ticks + 2), .ok (some op)))
    (fails : ∀ e, outcome n op (.error e) = m.broken (ticks + 1) e) :
    SameEnd (stepWithin (bound + 2) (some op) (m.during ticks [.ofList [.memoryOut, .bIn], w]))
      (outcome n op (n.perform op)) := by
  rw [performs]
  cases read : m.memory.read m.registers.address with
  | ok v =>
    have plain : w.contains .instructionIn = false := by obtain rfl | rfl := drives <;> decide
    rw [readCell_ok read]
    change SameEnd _ (outcome n op (.ok _))
    rw [done, ← sign]
    refine SameEnd.trans (word_more (n := m.put .b v) running (by decide)
      (assert_read (m := m.during ticks [w]) (t := .bIn) rfl (by decide) read) running) ?_
    exact word_last running plain (assert_alu drives _)
  | error e =>
    rw [readCell_error read]
    change SameEnd _ (outcome n op (.error _))
    rw [fails]
    exact word_fault running (assert_read_error rfl read)

section executing

variable {n : Machine δ} (running : n.isRunning) (bound : Nat)

include running

theorem direct_step (last : Option Opcode) (w : ControlWord) (rest : List ControlWord) :
    SameEnd
      (stepWithin (bound + 1) last
        (n.during 0 (.ofList [.instructionOut, .addressIn] :: w :: rest)))
      (stepWithin bound last ((n.put .address n.operand).during 1 (w :: rest))) :=
  word_more running (by decide) (assert_pair rfl rfl _) running

theorem move_step (ends : Move) :
    SameEnd (stepWithin (bound + 1) (some (.move ends))
        (n.during 0 (Opcode.move ends).microprogram.words))
      (outcome n (.move ends) (n.perform (.move ends))) := by
  have words := Opcode.words_move ends
  have length : (Opcode.move ends).microprogram.words.length = 1 := by rw [words]; rfl
  rw [perform, outcome, length, words]
  exact word_last running
    (ControlWord.plain_pair (Signal.isDriver_driving _) (Signal.isLatch_latching _)
      (Signal.latching_plain _))
    (assert_transfer (Signal.drives_driving _) (Signal.latches_latching _)
      (Signal.latching_plain _) _)

theorem load_step (r : GeneralRegister) :
    SameEnd (stepWithin (bound + 2) (some (.load r))
        (n.during 0 (Opcode.load r).microprogram.words))
      (outcome n (.load r) (n.perform (.load r))) := by
  have words := Opcode.words_load r
  have length : (Opcode.load r).microprogram.words.length = 2 := by rw [words]; rfl
  rw [words]
  refine (direct_step running _ _ _ _).trans ?_
  cases read : n.memory.read n.operand with
  | ok v =>
    have performs : n.perform (.load r) = .ok ((n.put .address n.operand).put r.register v) := by
      rw [perform, readCell_ok read]
      rfl
    rw [performs, outcome, length]
    exact word_last running
      (ControlWord.plain_pair rfl (Signal.isLatch_latching _) (Signal.latching_plain _))
      (assert_read (Signal.latches_latching _) (Signal.latching_plain _) read)
  | error e =>
    have performs : n.perform (.load r) = .error (.memory e) := by
      rw [perform, readCell_error read]
      rfl
    rw [performs, outcome]
    exact word_fault running (assert_read_error (Signal.isLatch_latching _) read)

theorem loadImmediate_step (r : GeneralRegister) :
    SameEnd (stepWithin (bound + 2) (some (.loadImmediate r))
        (n.during 0 (Opcode.loadImmediate r).microprogram.words))
      (outcome n (.loadImmediate r) (n.perform (.loadImmediate r))) := by
  have words := Opcode.words_loadImmediate r
  have length : (Opcode.loadImmediate r).microprogram.words.length = 2 := by rw [words]; rfl
  rw [words]
  cases write : n.memory.write n.registers.address n.operand with
  | ok memory =>
    let stored : Machine δ := { n with memory }
    have performs : n.perform (.loadImmediate r) = .ok (stored.put r.register n.operand) := by
      rw [perform, writeCell_ok write]
      rfl
    -- the second word reads back what the first one wrote
    have read : stored.memory.read n.registers.address = .ok n.operand := by
      rw [Memory.read_write write, if_pos rfl]
    refine SameEnd.trans
      (word_more (n := stored) running (by decide) (assert_write rfl write) running) ?_
    rw [performs, outcome, length]
    exact word_last running
      (ControlWord.plain_pair rfl (Signal.isLatch_latching _) (Signal.latching_plain _))
      (assert_read (Signal.latches_latching _) (Signal.latching_plain _) read)
  | error e =>
    have performs : n.perform (.loadImmediate r) = .error (.memory e) := by
      rw [perform, writeCell_error write]
      rfl
    rw [performs, outcome]
    exact word_fault running (assert_write_error rfl write)

theorem store_step (r : GeneralRegister) :
    SameEnd (stepWithin (bound + 2) (some (.store r))
        (n.during 0 (Opcode.store r).microprogram.words))
      (outcome n (.store r) (n.perform (.store r))) := by
  have words := Opcode.words_store r
  have length : (Opcode.store r).microprogram.words.length = 2 := by rw [words]; rfl
  rw [words]
  refine (direct_step running _ _ _ _).trans ?_
  let pointed := n.put .address n.operand
  cases write : n.memory.write n.operand (pointed.registers.get r.register) with
  | ok memory =>
    have performs : n.perform (.store r) = .ok { pointed with memory } :=
      writeCell_ok (m := pointed) write
    rw [performs, outcome, length]
    exact word_last running (ControlWord.plain_pair (Signal.isDriver_driving _) rfl (by decide))
      (assert_write (Signal.drives_driving _) write)
  | error e =>
    have performs : n.perform (.store r) = .error (.memory e) :=
      writeCell_error (m := pointed) write
    rw [performs, outcome]
    exact word_fault running (assert_write_error (Signal.drives_driving _) write)

theorem storeImmediate_step :
    SameEnd (stepWithin (bound + 1) (some .storeImmediate)
        (n.during 0 Opcode.storeImmediate.microprogram.words))
      (outcome n .storeImmediate (n.perform .storeImmediate)) := by
  cases write : n.memory.write n.registers.address n.operand with
  | ok memory =>
    rw [perform, writeCell_ok write, outcome]
    exact word_last (w := .ofList [.instructionOut, .memoryIn]) running (by decide)
      (assert_write rfl write)
  | error e =>
    rw [perform, writeCell_error write, outcome]
    exact word_fault running (assert_write_error rfl write)

theorem add_step (sign : n.operation = .add) :
    SameEnd (stepWithin (bound + 3) (some .add) (n.during 0 Opcode.add.microprogram.words))
      (outcome n .add (n.perform .add)) :=
  SameEnd.trans (direct_step running _ _ _ _)
    (arithmetic_step bound .add (m := n.put .address n.operand) running sign (.inl rfl) rfl
      (fun _ => rfl) fun _ => rfl)

theorem subtract_step (sign : n.operation = .subtract) :
    SameEnd (stepWithin (bound + 3) (some .subtract)
        (n.during 0 Opcode.subtract.microprogram.words))
      (outcome n .subtract (n.perform .subtract)) :=
  SameEnd.trans (direct_step running _ _ _ _)
    (arithmetic_step bound .subtract (m := n.put .address n.operand) running sign (.inr rfl) rfl
      (fun _ => rfl) fun _ => rfl)

theorem sum_step (sign : n.operation = .add) :
    SameEnd (stepWithin (bound + 2) (some .sum) (n.during 0 Opcode.sum.microprogram.words))
      (outcome n .sum (n.perform .sum)) :=
  arithmetic_step bound .sum (m := n) running sign (.inl rfl) rfl (fun _ => rfl) fun _ => rfl

theorem difference_step (sign : n.operation = .subtract) :
    SameEnd (stepWithin (bound + 2) (some .difference)
        (n.during 0 Opcode.difference.microprogram.words))
      (outcome n .difference (n.perform .difference)) :=
  arithmetic_step bound .difference (m := n) running sign (.inr rfl) rfl (fun _ => rfl)
    fun _ => rfl

theorem compare_step :
    SameEnd (stepWithin (bound + 3) (some .compare) (n.during 0 Opcode.compare.microprogram.words))
      (outcome n .compare (n.perform .compare)) := by
  refine (direct_step running _ _ _ _).trans ?_
  let pointed := n.put .address n.operand
  cases read : n.memory.read n.operand with
  | ok v =>
    rw [perform, readCell_ok read]
    refine SameEnd.trans (word_more (n := pointed) running (by decide) (assert_overridden read)
      running) ?_
    exact word_last (n := pointed) running (by decide) (assert_flags _)
  | error e =>
    rw [perform, readCell_error read]
    exact word_fault running (assert_overridden_error read)

theorem jump_step :
    SameEnd (stepWithin (bound + 1) (some .jump) (n.during 0 Opcode.jump.microprogram.words))
      (outcome n .jump (n.perform .jump)) :=
  word_last (n := n.put .programCounter n.operand) running (by decide) (assert_pair rfl rfl _)

theorem input_step :
    SameEnd (stepWithin (bound + 1) (some .input) (n.during 0 Opcode.input.microprogram.words))
      (outcome n .input (n.perform .input)) := by
  cases drive : n.ports.drive n.registers.b with
  | ok answer =>
    obtain ⟨v, ports⟩ := answer
    rw [perform, drive]
    exact word_last running (by decide) (assert_input drive)
  | error e =>
    rw [perform, drive]
    exact word_fault running (assert_input_error drive)

theorem output_step :
    SameEnd (stepWithin (bound + 1) (some .output) (n.during 0 Opcode.output.microprogram.words))
      (outcome n .output (n.perform .output)) := by
  cases write : n.ports.write n.registers.address n.registers.io with
  | ok answer =>
    obtain ⟨ports, notes⟩ := answer
    rw [perform, write]
    exact stepWithin_last (m := n.during 0 Opcode.output.microprogram.words)
      (.ofList [.ioOut, .peripheralIn]) _ _ running rfl (by decide) (assert_output write) rfl rfl
  | error e =>
    rw [perform, write]
    exact word_fault running (assert_output_error write)

theorem halt_step :
    SameEnd (stepWithin (bound + 1) (some .halt) (n.during 0 Opcode.halt.microprogram.words))
      (outcome n .halt (n.perform .halt)) :=
  stepWithin_last (m := n.during 0 Opcode.halt.microprogram.words) (.ofList [.halt]) _ _ running
    rfl (by decide) (assert_halt _) rfl rfl

theorem execute_step (op : Opcode) (sign : n.operation = op.microprogram.operation)
    (words : op.microprogram.words ≠ []) :
    SameEnd (stepWithin (bound + 3) (some op) (n.during 0 op.microprogram.words))
      (outcome n op (n.perform op)) := by
  cases op with
  | move ends => exact move_step running _ ends
  | load r => exact load_step running _ r
  | loadImmediate r => exact loadImmediate_step running _ r
  | store r => exact store_step running _ r
  | storeImmediate => exact storeImmediate_step running _
  | add => exact add_step running _ sign
  | sum => exact sum_step running _ sign
  | subtract => exact subtract_step running _ sign
  | difference => exact difference_step running _ sign
  | compare => exact compare_step running _
  | jump => exact jump_step running _
  | jumpZero | jumpCarry => exact absurd rfl words
  | input => exact input_step running _
  | output => exact output_step running _
  | halt => exact halt_step running _

end executing

theorem step_instruct {m : Machine δ} (running : m.isRunning) (empty : m.queue = []) :
    SameEnd m.step m.instruct := by
  have work : m.work = 9 := by rw [work, pending, empty]; rfl
  rw [step, work]
  refine (seeking_step running 7 none empty).trans ?_
  unfold instruct
  cases read : m.memory.read m.counter with
  | error e => exact seeking_fault running 6 none read
  | ok code =>
    dsimp only
    cases known : Opcode.ofId? code with
    | none => exact opening_fault running 6 none read known
    | some op =>
      refine (opening_step running 5 none read known).trans ?_
      dsimp only
      cases read' : m.memory.read (m.counter + 1) with
      | error e => exact operand_fault running 4 (some op) code op read'
      | ok x =>
        refine (operand_step running 3 (some op) code op read').trans ?_
        by_cases words : op.microprogram.words = []
        · rw [if_pos words]
          obtain rfl | rfl := Opcode.words_eq_nil words <;> exact ⟨rfl, rfl⟩
        · rw [if_neg words]
          exact execute_step (n := (m.fetched op x).spend 6) running _ op rfl words

/-- one step is one instruction, but for the journal and the record of the last bus value -/
theorem step_refines_instruct (m : Machine δ) (running : m.isRunning) (empty : m.queue = []) :
    m.step.2 = m.instruct.2 ∧
      ∃ bus journal, m.step.1 = { m.instruct.1 with lastBus := bus, journal } := by
  obtain ⟨state, answer⟩ := step_instruct running empty
  exact ⟨answer, Alike.exists_eq state.symm⟩

/-- an addition whose operand is its own opcode -/
theorem step_add :
    let m : Machine Device := ofImage ⟨0, [.of .add 2, .of .halt]⟩ 16
    m.isRunning ∧ m.queue = [] ∧ m.step.2 = .ok (some .add) ∧ m.step.1.ticks = 9 ∧
      m.step.1.registers.accumulator = Opcode.add.id ∧ m.step.1.registers.addressBackup = 0 ∧
      m.step.1.registers.address = 2 := by
  intro m
  have running : m.isRunning := by decide
  have empty : m.queue = [] := by decide
  obtain ⟨answer, bus, journal, state⟩ := step_refines_instruct m running empty
  refine ⟨running, empty, answer.trans rfl, ?_⟩
  rw [state]
  exact ⟨rfl, rfl, rfl, rfl⟩

end Machine
end OneBus
