import OneBus.Proofs.Advance

/-!
A machine that has stopped stays so. It refuses to tick, to step and to run, so what a later call
puts into it, pending words included, is never carried out: its registers and its memory are what
pokes and loads make of them, a device attached later joins ports that are left as they were, and
none of the devices hears of anything again.
-/

namespace OneBus
namespace Machine

variable {δ : Type}

/-- what a call puts into the registers from outside -/
def Action.registers (bank : RegisterBank) : Action δ → RegisterBank
  | .setRegister r value => bank.set r value
  | .load image => bank.set .programCounter image.start
  | _ => bank

/-- what a call puts into memory from outside; a poke that is refused leaves it alone -/
def Action.memory (memory : Memory) : Action δ → Memory
  | .poke address value =>
    match memory.write address value with
    | .ok written => written
    | .error _ => memory
  | .load image => memory.load image.bytes
  | _ => memory

/-- `m` with what calls put into it from outside; words may have been queued as well -/
def Rests (m : Machine δ) (calls : List (Action δ)) (n : Machine δ) : Prop :=
  ∃ queue operation phase journal, n = { m with
    registers := calls.foldl Action.registers m.registers
    memory := calls.foldl Action.memory m.memory
    ports := (attached calls).foldl PortTable.attach m.ports
    queue
    operation
    phase
    journal }

theorem Rests.of_call {m n : Machine δ} {call : Action δ} (plain : call.device? = none)
    (h : ∃ queue operation phase journal, n = { m with
      registers := call.registers m.registers
      memory := call.memory m.memory
      queue
      operation
      phase
      journal }) : Rests m [call] n := by
  obtain ⟨queue, operation, phase, journal, rfl⟩ := h
  exact ⟨queue, operation, phase, journal, by simp [attached, plain]⟩

theorem Rests.refl (m : Machine δ) : Rests m [] m :=
  ⟨m.queue, m.operation, m.phase, m.journal, by simp [attached]⟩

theorem Rests.trans {k m n : Machine δ} {before after : List (Action δ)} (h : Rests k before m)
    (h' : Rests m after n) : Rests k (before ++ after) n := by
  obtain ⟨_, _, _, _, rfl⟩ := h
  obtain ⟨queue, operation, phase, journal, rfl⟩ := h'
  refine ⟨queue, operation, phase, journal, ?_⟩
  simp only [List.foldl_append, attached, List.filterMap_append]

theorem Rests.isRunning {m n : Machine δ} {calls : List (Action δ)} (h : Rests m calls n) :
    n.isRunning = m.isRunning := by
  obtain ⟨_, _, _, _, rfl⟩ := h
  rfl

theorem exists_pending (m : Machine δ) : ∃ w rest, m.pending = w :: rest := by
  have some : m.pending ≠ [] := by
    rw [pending]
    split
    · decide
    · next some => simpa using some
  exact List.exists_cons_of_ne_nil some

theorem work_pos (m : Machine δ) : 0 < m.work := by
  obtain ⟨w, rest, pending⟩ := m.exists_pending
  have one : 0 < w.work := by
    unfold ControlWord.work
    split <;> decide
  rw [work, pending, List.foldr_cons]
  omega

section

variable [Peripheral δ] {m : Machine δ} (stopped : ¬ m.isRunning)

include stopped

theorem step_stopped : m.step = (m, .error (.notRunning m.condition)) := by
  obtain ⟨bound, work⟩ : ∃ bound, m.work = bound + 1 := ⟨m.work - 1, by have := m.work_pos; omega⟩
  rw [step, work, stepWithin_succ, tick_stopped stopped]
  rfl

theorem rests_act (call : Action δ) : Rests m [call] (m.act call) := by
  cases call with
  | attach device => exact ⟨_, _, _, _, rfl⟩
  | enqueue program => exact .of_call rfl ⟨_, _, _, _, rfl⟩
  | setRegister r value => exact .of_call rfl ⟨_, _, _, _, rfl⟩
  | load image =>
    rw [act, load]
    split <;> exact .of_call rfl ⟨_, _, _, _, rfl⟩
  | poke address value =>
    rw [act, poke]
    refine .of_call rfl ⟨m.queue, m.operation, m.phase, m.journal, ?_⟩
    rw [Action.memory]
    cases m.memory.write address value <;> rfl
  | tick =>
    rw [act, tick_stopped stopped]
    exact .of_call rfl ⟨_, _, _, _, rfl⟩
  | step =>
    rw [act, step_stopped stopped]
    exact .of_call rfl ⟨_, _, _, _, rfl⟩
  | run limit =>
    rw [act, run, runOn_stopped stopped]
    exact .of_call rfl ⟨_, _, _, _, rfl⟩
  | runOn clock limit =>
    rw [act, runOn_stopped stopped]
    exact .of_call rfl ⟨_, _, _, _, rfl⟩
  | halt =>
    rw [act, halt, if_neg stopped]
    exact .of_call rfl ⟨_, _, _, _, rfl⟩

theorem rests_foldl_act (calls : List (Action δ)) : Rests m calls (calls.foldl act m) := by
  induction calls generalizing m with
  | nil => exact .refl m
  | cons call rest ih =>
    have first := rests_act stopped call
    exact first.trans (ih (first.isRunning ▸ stopped))

end

/-- whatever is called on a machine that has stopped, it stays in its condition and refuses to go
on, its devices hear of nothing, and only pokes and loads change its registers and its memory -/
theorem stopped_for_good {δ : Type} [Peripheral δ] {m : Machine δ}
    (stopped : m.condition ≠ .running) (calls : List (Action δ)) :
    let n := calls.foldl act m
    let refusal := MachineError.notRunning m.condition
    n.condition = m.condition ∧
      n.tick.2 = .error refusal ∧ n.step.2 = .error refusal ∧
      (∀ limit, limit ≠ some 0 → (n.run limit).2 = some (.error refusal)) ∧
      (∀ clock limit, limit ≠ some 0 → (n.runOn clock limit).2 = some (.error refusal)) ∧
      n.ports.traffic = m.ports.traffic ∧
      n.ports.ports = m.ports.ports ++ (attached calls).map (⟨·, 0⟩) ∧
      n.ticks = m.ticks ∧ n.instructions = m.instructions ∧ n.current = m.current ∧
      n.lastBus = m.lastBus ∧ n.alu = m.alu ∧
      n.registers = calls.foldl Action.registers m.registers ∧
      n.memory = calls.foldl Action.memory m.memory := by
  intro n refusal
  have rests : Rests m calls n := rests_foldl_act (by simpa [isRunning] using stopped) calls
  have still : ¬ n.isRunning := by
    rw [rests.isRunning]
    simpa [isRunning] using stopped
  obtain ⟨queue, operation, phase, journal, eq⟩ := rests
  have same : n.condition = m.condition := by rw [eq]
  have refused (clock : Clock) (limit : Option Nat) (positive : limit ≠ some 0) :
      (n.runOn clock limit).2 = some (.error refusal) := by
    rw [runOn_stopped still, if_neg positive, same]
  refine ⟨same, ?_, ?_, fun limit => refused .unthrottled limit, refused, ?_⟩
  · rw [tick_stopped still, same]
  · rw [step_stopped still, same]
  · rw [eq]
    exact ⟨PortTable.traffic_foldl_attach .., PortTable.ports_foldl_attach .., rfl, rfl, rfl, rfl,
      rfl, rfl, rfl⟩

/-- an output that is queued behind a fault is not carried out -/
theorem stopped_for_good_faulted :
    let m : Machine Device := (boot ⟨0, [⟨99, 0⟩]⟩ 16 [.probe 3 {}]).after 3
    let calls : List (Action Device) := [.tick, .enqueue Opcode.output.microprogram, .step,
      .poke 3 9, .poke 8 1, .setRegister .io 5, .attach .mute, .run none, .load ⟨4, [.of .sum]⟩,
      .runOn (.ofRate 9) (some 7), .halt]
    let n := calls.foldl act m
    m.condition = .faulted ∧ n.queue ≠ [] ∧ n.condition = .faulted ∧
      n.tick.2 = .error (.notRunning .faulted) ∧
      (n.run none).2 = some (.error (.notRunning .faulted)) ∧
      n.ports.traffic = #[.disconnected 0] ∧ n.ports.length = 2 ∧ n.ticks = 3 ∧
      n.registers.io = 5 ∧ n.registers.programCounter = 4 ∧ n.memory.read 3 = .ok 0 := by
  intro m calls n
  have faulted : m.condition = .faulted := by decide +kernel
  have stopped : m.condition ≠ .running := by rw [faulted]; decide
  obtain ⟨condition, tick, -, run, -, traffic, ports, ticks, -, -, -, -, registers, memory⟩ :=
    stopped_for_good stopped calls
  have told : m.ports.traffic = #[.disconnected 0] := by decide +kernel
  rw [faulted] at condition tick run
  refine ⟨faulted, by decide +kernel, condition, tick, run none (by decide), ?_, ?_, ?_, ?_, ?_, ?_⟩
  · rw [traffic, told]
  · rw [PortTable.length_eq, ports]
    decide +kernel
  · rw [ticks]
    decide +kernel
  · rw [registers]
    decide +kernel
  · rw [registers]
    decide +kernel
  · rw [memory]
    decide +kernel

end Machine
end OneBus
