import OneBus.Device
import OneBus.Proofs.Actions

/-!
What holds between any two calls to a machine, whatever they are: nothing is on the bus, the
sequencer is idle exactly when no word is pending, no empty word is pending, the arithmetic unit
has the registers `A` and `B` as they are, and `Flags` has what was last put there from outside.
`Coherent` is the part of it that holds in the middle of a word as well. Left out are only pokes
into `A` and `B`, which the arithmetic unit does not see.
-/

namespace OneBus

theorem Microprogram.words_nonempty (p : Microprogram) : ∀ w ∈ p.words, w.isEmpty = false := by
  intro w mem
  simpa using (List.mem_filter.1 mem).2

theorem Signal.latches_ne_flags (s : Signal) : s.latches ≠ some .flags := by
  cases s <;> decide

theorem fetch_nonempty : ∀ w ∈ fetch, w.isEmpty = false := by decide

namespace Machine

variable {δ : Type}

/-- what `Flags` holds behind a call -/
def Action.flags (before : Word) : Action δ → Word
  | .setRegister .flags value => value
  | _ => before

/-- what holds in the middle of a word too -/
structure Coherent (flags : Word) (m : Machine δ) : Prop where
  words : ∀ w ∈ m.queue, w.isEmpty = false
  alu : m.alu = ⟨m.registers.a, m.registers.b⟩
  flags : m.registers.flags = flags

/-- within a word -/
structure Busy (flags : Word) (m : Machine δ) : Prop extends Coherent flags m where
  phase : m.phase = .executing

/-- between two ticks -/
structure Consistent (flags : Word) (m : Machine δ) : Prop extends Coherent flags m where
  bus : m.bus = 0
  idle : m.phase = .idle ↔ m.queue = []

section

variable {flags : Word} {m : Machine δ}

theorem Coherent.words_append (h : Coherent flags m) (p : Microprogram) :
    ∀ w ∈ m.queue ++ p.words, w.isEmpty = false := by
  intro w mem
  rcases List.mem_append.1 mem with mem | mem
  · exact h.words w mem
  · exact p.words_nonempty w mem

theorem Coherent.latchRegister (h : Coherent flags m) {r : Register} (other : r ≠ .flags) :
    Coherent flags (m.latchRegister r) := by
  obtain ⟨words, alu, kept⟩ := h
  cases r <;> first | contradiction | exact ⟨words, rfl, kept⟩ | exact ⟨words, alu, kept⟩

theorem Consistent.begun (h : Consistent flags m) (e : Event) : Busy flags (m.begun.note e) := by
  refine ⟨⟨fun w mem => ?_, h.alu, h.flags⟩, rfl⟩
  have pending : w ∈ m.pending := List.mem_of_mem_tail mem
  unfold Machine.pending at pending
  split at pending
  · exact fetch_nonempty w pending
  · exact h.words w pending

theorem idle_settle (stage : m.phase = .executing ∨ m.queue = []) :
    m.settle.phase = .idle ↔ m.settle.queue = [] := by
  cases queue : m.queue with
  | nil => simp [Machine.settle, queue]
  | cons w rest =>
    have executing : m.phase = .executing := by simpa [queue] using stage
    simp [Machine.settle, queue, executing]

theorem idle_enqueue (h : m.phase = .idle ↔ m.queue = []) (program : Microprogram) :
    (m.enqueue program).phase = .idle ↔ (m.enqueue program).queue = [] := by
  unfold Machine.enqueue
  dsimp only
  cases queue : m.queue ++ program.words with
  | nil => simp [h, (List.append_eq_nil_iff.1 queue).1]
  | cons w rest => simp

theorem Coherent.settle (h : Coherent flags m) (stage : m.phase = .executing ∨ m.queue = []) :
    Consistent flags m.settle :=
  ⟨⟨h.words, h.alu, h.flags⟩, rfl, idle_settle stage⟩

theorem consistent_new (memorySize : Nat) : Consistent 0 (new memorySize : Machine δ) := by
  refine ⟨⟨?_, rfl, rfl⟩, rfl, ?_⟩
  · simp [new]
  · simp [new]

theorem Consistent.enqueue (h : Consistent flags m) (program : Microprogram) :
    Consistent flags (m.enqueue program) :=
  ⟨⟨h.toCoherent.words_append program, h.alu, h.flags⟩, h.bus, idle_enqueue h.idle program⟩

variable [Peripheral δ]

theorem Coherent.stop (h : Coherent flags m) (bus : m.bus = 0) (condition : Condition) :
    Consistent flags (m.stop condition) := by
  refine ⟨⟨?_, h.alu, h.flags⟩, bus, ?_⟩
  · simp [Machine.stop]
  · simp [Machine.stop]

theorem Busy.drive (h : Busy flags m) (s : Signal) :
    Ends (Busy flags) (Busy flags) (m.drive s) :=
  Ends.drive s (fun _ => ⟨⟨h.words, h.alu, h.flags⟩, h.phase⟩)
    fun _ _ _ _ => ⟨⟨h.words, h.alu, h.flags⟩, h.phase⟩

theorem Busy.latch (h : Busy flags m) (a : Word) (s : Signal) :
    Ends (Busy flags) (Busy flags) (m.latch a s) := by
  refine Ends.latch a s h ?_ ?_ ?_ ?_
  · exact fun _ _ => ⟨⟨h.words, h.alu, h.flags⟩, h.phase⟩
  · exact fun _ _ _ _ => ⟨⟨h.words, h.alu, h.flags⟩, h.phase⟩
  · intro r latches
    have other : r ≠ .flags := by
      rintro rfl
      exact s.latches_ne_flags latches
    exact ⟨h.toCoherent.latchRegister other, h.phase⟩
  · intro op e _
    exact ⟨⟨h.toCoherent.words_append op.microprogram, h.alu, h.flags⟩, h.phase⟩

theorem stage_finish (busy : m.phase = .executing) (w : ControlWord) :
    (m.finish w).phase = .executing ∨ (m.finish w).queue = [] := by
  unfold Machine.finish
  cases w.contains .programCounterIncrement <;> cases w.contains .halt <;>
    first | exact .inl busy | exact .inr rfl

theorem Busy.finish (h : Busy flags m) (w : ControlWord) : Coherent flags (m.finish w) := by
  obtain ⟨⟨words, alu, kept⟩, -⟩ := h
  have none : ∀ w ∈ ([] : List ControlWord), w.isEmpty = false := by simp
  unfold Machine.finish
  cases w.contains .programCounterIncrement <;> cases w.contains .halt
  · exact ⟨words, alu, kept⟩
  · exact ⟨none, alu, kept⟩
  · exact ⟨words, alu, kept⟩
  · exact ⟨none, alu, kept⟩

theorem Consistent.tick (h : Consistent flags m) : Consistent flags m.tick.1 := by
  refine tick_rule (P := Consistent flags) (Q := Busy flags) ?_ ?_ ?_ ?_ ?_ h
  · exact fun m e h => h.begun e
  · exact fun m s h => h.drive s
  · exact fun m a s h => h.latch a s
  · exact fun m w h => (h.finish w).settle (stage_finish h.phase w)
  · intro m e h
    exact Coherent.stop (m := m.settle.note (.faulted m.settle.ticks e))
      ⟨h.words, h.alu, h.flags⟩ rfl .faulted

theorem Consistent.act (h : Consistent flags m) {action : Action δ}
    (apart : ∀ r v, action = .setRegister r v → r ≠ .a ∧ r ≠ .b) :
    Consistent (action.flags flags) (m.act action) := by
  cases action with
  | tick | step | run _ | runOn _ _ => exact act_keeps (fun _ h => h.tick) h rfl
  | enqueue program => exact h.enqueue program
  | halt =>
    rw [Machine.act, Machine.halt]
    split
    · exact h.toCoherent.stop h.bus .halted
    · exact h
  | attach device => exact ⟨⟨h.words, h.alu, h.flags⟩, h.bus, h.idle⟩
  | load image =>
    rw [Machine.act, Machine.load]
    split <;> exact ⟨⟨h.words, h.alu, h.flags⟩, h.bus, h.idle⟩
  | poke address value =>
    rw [Machine.act, Machine.poke]
    cases m.memory.write address value <;> exact ⟨⟨h.words, h.alu, h.flags⟩, h.bus, h.idle⟩
  | setRegister r value =>
    obtain ⟨a, b⟩ := apart r value rfl
    obtain ⟨⟨words, alu, kept⟩, bus, idle⟩ := h
    cases r <;> first
      | contradiction
      | exact ⟨⟨words, alu, kept⟩, bus, idle⟩
      | exact ⟨⟨words, alu, rfl⟩, bus, idle⟩

theorem Consistent.foldl_act (actions : List (Action δ)) (h : Consistent flags m)
    (apart : ∀ r v, .setRegister r v ∈ actions → r ≠ .a ∧ r ≠ .b) :
    Consistent (actions.foldl Action.flags flags) (actions.foldl Machine.act m) := by
  induction actions generalizing flags m with
  | nil => exact h
  | cons action rest ih =>
    refine ih (h.act fun r v eq => apart r v ?_) fun r v mem => apart r v ?_
    · exact eq ▸ List.mem_cons_self
    · exact List.mem_cons_of_mem _ mem

/-- a tick of a running machine leaves the sequencer idle exactly when it leaves no word pending,
however it was before -/
theorem idle_tick_running (running : m.isRunning) :
    m.tick.1.phase = .idle ↔ m.tick.1.queue = [] := by
  let Q (n : Machine δ) : Prop := n.phase = .executing
  let R (n : Machine δ) : Prop := n.phase = .idle ↔ n.queue = []
  refine tick_ends (Q := Q) (R := R) running rfl ?_ ?_ ?_ ?_
  · exact fun n s _ h => Ends.drive s (fun _ => h) fun _ _ _ _ => h
  · exact fun n a s _ h =>
      Ends.latch a s h (fun _ _ => h) (fun _ _ _ _ => h) (fun _ _ => h) fun _ _ _ => h
  · exact fun n h => idle_settle (stage_finish h m.word)
  · intro n e _
    simp [R, fault, stop]

theorem idle_tick (h : m.phase = .idle ↔ m.queue = []) :
    m.tick.1.phase = .idle ↔ m.tick.1.queue = [] := by
  by_cases running : m.isRunning
  · exact idle_tick_running running
  · rw [tick_stopped running]
    exact h

theorem idle_act (h : m.phase = .idle ↔ m.queue = []) (call : Action δ) :
    (m.act call).phase = .idle ↔ (m.act call).queue = [] := by
  cases call with
  | tick | step | run _ | runOn _ _ =>
    exact act_keeps (P := fun n => n.phase = .idle ↔ n.queue = []) (fun _ h => idle_tick h) h rfl
  | enqueue program => exact idle_enqueue h program
  | halt =>
    rw [Machine.act, Machine.halt]
    split
    · simp [Machine.stop]
    · exact h
  | attach _ | setRegister _ _ => exact h
  | load image =>
    rw [Machine.act, Machine.load]
    split <;> exact h
  | poke address value =>
    rw [Machine.act, Machine.poke]
    cases m.memory.write address value <;> exact h

theorem idle_foldl_act (h : m.phase = .idle ↔ m.queue = []) (calls : List (Action δ)) :
    (calls.foldl Machine.act m).phase = .idle ↔ (calls.foldl Machine.act m).queue = [] := by
  induction calls generalizing m with
  | nil => exact h
  | cons call rest ih => exact ih (idle_act h call)

/-- whenever the arithmetic unit drives the bus, it is from `A` and `B` as they are -/
theorem Coherent.drive_aluEnable (h : Coherent flags m) :
    m.drive .aluEnable =
      .ok { m with bus := m.operation.apply m.registers.a m.registers.b } := by
  have result : m.alu.result m.operation = m.operation.apply m.registers.a m.registers.b := by
    rw [h.alu, Alu.result]
  rw [← result]
  rfl

/-- any calls, in any order, leave a machine consistent, and in the tick that comes next the
arithmetic unit drives what `A` and `B` come to -/
theorem actions_consistent (memorySize : Nat) (actions : List (Action δ))
    (apart : ∀ r v, .setRegister r v ∈ actions → r ≠ .a ∧ r ≠ .b) :
    let m := actions.foldl Machine.act (new memorySize : Machine δ)
    Consistent (actions.foldl Action.flags 0) m ∧
      ∀ (drivers : List Signal) (n : Machine δ),
        drivers.foldlM drive (m.begun.note (.tick m.ticks m.word)) = .ok n →
        n.drive .aluEnable =
          .ok { n with bus := n.operation.apply n.registers.a n.registers.b } := by
  intro m
  have consistent : Consistent (actions.foldl Action.flags 0) m :=
    (consistent_new memorySize).foldl_act actions apart
  refine ⟨consistent, fun drivers n driven => ?_⟩
  have ends := Ends.foldlM drivers (fun n s (h : Busy _ n) => h.drive s)
    (consistent.begun (.tick m.ticks m.word))
  rw [driven] at ends
  exact ends.toCoherent.drive_aluEnable

end

/-- words that a stopped machine is given stay pending, also one that names no line -/
theorem actions_consistent_halted :
    let actions : List (Action Device) := [.attach .mute, .load ⟨0, [.of .halt]⟩,
      .setRegister .flags 7, .tick, .enqueue ⟨⟨0xf8000000⟩, .empty, .ofList [.halt]⟩, .poke 9 1,
      .step, .tick, .enqueue ⟨⟨0xf8000000⟩, .empty, .empty⟩, .setRegister .io 3]
    let m := actions.foldl act (new 16)
    (∀ r v, .setRegister r v ∈ actions → r ≠ .a ∧ r ≠ .b) ∧ m.condition = .halted ∧
      m.queue = [⟨0xf8000000⟩] ∧ m.phase ≠ .idle ∧ m.bus = 0 ∧ m.registers.flags = 7 ∧
      m.alu = ⟨m.registers.a, m.registers.b⟩ := by
  intro actions m
  have apart : ∀ r v, .setRegister r v ∈ actions → r ≠ .a ∧ r ≠ .b := by
    intro r v mem
    simp only [actions, List.mem_cons, reduceCtorEq, Action.setRegister.injEq, List.not_mem_nil,
      or_false, false_or] at mem
    rcases mem with ⟨rfl, -⟩ | ⟨rfl, -⟩ <;> decide
  have consistent := (actions_consistent 16 actions apart).1
  have queue : m.queue = [⟨0xf8000000⟩] := by rfl
  refine ⟨apart, by rfl, queue, ?_, consistent.bus, consistent.flags, consistent.alu⟩
  intro idle
  have empty := consistent.idle.1 idle
  cases queue.symm.trans empty

end Machine
end OneBus
