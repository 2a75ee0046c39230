import OneBus.Device
import OneBus.Machine.Snapshot
import OneBus.Proofs.Consistency
import OneBus.Proofs.Stopped

/-!
What a stopped machine still has pending. Whatever stops it leaves no word behind, but the queue
stays open: a microprogram can be queued on a machine that has stopped, and since that machine does
not tick any more its words stay where they are. So the words pending are those queued since the
stop, in order, and the sequencer is idle when there are none.
-/

namespace OneBus
namespace Machine

variable {δ : Type}

/-- the words that a call queues -/
def Action.words : Action δ → List ControlWord
  | .enqueue program => program.words
  | _ => []

/-- the words that calls queue, in order -/
def queued (calls : List (Action δ)) : List ControlWord := calls.flatMap Action.words

theorem Action.words_eq_nil {call : Action δ} (other : ∀ program, call ≠ .enqueue program) :
    call.words = [] := by
  cases call with
  | enqueue program => exact absurd rfl (other program)
  | _ => rfl

/-- stopped, with these words pending -/
structure Stranded (words : List ControlWord) (m : Machine δ) : Prop where
  stopped : ¬ m.isRunning
  queue : m.queue = words

theorem Stranded.aside {words : List ControlWord} {m n : Machine δ} (h : Stranded words m)
    (condition : n.condition = m.condition) (queue : n.queue = m.queue) : Stranded words n := by
  refine ⟨?_, queue.trans h.queue⟩
  rw [isRunning, condition]
  exact h.stopped

variable [Peripheral δ] {m : Machine δ}

/-- the calls that come when the machine has stopped -/
def sinceStop (m : Machine δ) : List (Action δ) → List (Action δ)
  | [] => []
  | call :: rest => if (m.act call).isRunning then (m.act call).sinceStop rest else rest

theorem stranded_stop (m : Machine δ) {condition : Condition} (stops : condition ≠ .running) :
    Stranded [] (m.stop condition) :=
  ⟨by simpa [isRunning, stop] using stops, rfl⟩

/-- a tick that a machine does not survive leaves nothing pending -/
theorem stranded_tick (h : m.isRunning ∨ Stranded [] m) :
    m.tick.1.isRunning ∨ Stranded [] m.tick.1 := by
  rcases h with runs | stranded
  · let Q (n : Machine δ) : Prop := n.isRunning
    have halted : Condition.halted ≠ .running := by decide
    have faulted : Condition.faulted ≠ .running := by decide
    refine tick_ends (Q := Q) (R := fun n => n.isRunning ∨ Stranded [] n) runs runs ?_ ?_ ?_ ?_
    · exact fun n s _ h => Ends.drive s (fun _ => h) fun _ _ _ _ => h
    · exact fun n a s _ h =>
        Ends.latch a s h (fun _ _ => h) (fun _ _ _ _ => h) (fun _ _ => h) fun _ _ _ => h
    · intro n h
      have finished : (n.finish m.word).isRunning ∨ Stranded [] (n.finish m.word) := by
        unfold finish
        cases m.word.contains .halt with
        | true => exact .inr (stranded_stop _ halted)
        | false => cases m.word.contains .programCounterIncrement <;> exact .inl h
      exact finished.imp id fun stranded => stranded.aside rfl rfl
    · exact fun n e _ => .inr (stranded_stop _ faulted)
  · rw [tick_stopped stranded.stopped]
    exact .inr stranded

theorem stranded_act (runs : m.isRunning) (call : Action δ) :
    (m.act call).isRunning ∨ Stranded [] (m.act call) := by
  cases call with
  | tick | step | run _ | runOn _ _ =>
    let P (n : Machine δ) : Prop := n.isRunning ∨ Stranded [] n
    exact act_keeps (P := P) (fun _ => stranded_tick) (.inl runs) rfl
  | halt =>
    rw [act, halt, if_pos runs]
    exact .inr (stranded_stop m (by decide))
  | attach _ | enqueue _ | setRegister _ _ => exact .inl runs
  | load image =>
    rw [act, load]
    split <;> exact .inl runs
  | poke address value =>
    rw [act, poke]
    cases m.memory.write address value <;> exact .inl runs

theorem Stranded.act_other {words : List ControlWord} (h : Stranded words m) {call : Action δ}
    (other : ∀ program, call ≠ .enqueue program) : Stranded words (m.act call) := by
  cases call with
  | enqueue program => exact absurd rfl (other program)
  | tick | step | run _ | runOn _ _ =>
    have still (n : Machine δ) (h : Stranded words n) : Stranded words n.tick.1 := by
      rw [tick_stopped h.stopped]
      exact h
    exact act_keeps still h rfl
  | halt =>
    rw [Machine.act, halt, if_neg h.stopped]
    exact h
  | attach _ | setRegister _ _ => exact h.aside rfl rfl
  | load image =>
    rw [Machine.act, load]
    split <;> exact h.aside rfl rfl
  | poke address value =>
    rw [Machine.act, poke]
    cases m.memory.write address value <;> exact h.aside rfl rfl

theorem Stranded.act {words : List ControlWord} (h : Stranded words m) (call : Action δ) :
    Stranded (words ++ call.words) (m.act call) := by
  by_cases queues : ∃ program, call = .enqueue program
  · obtain ⟨program, rfl⟩ := queues
    exact ⟨h.stopped, congrArg (· ++ program.words) h.queue⟩
  · have other : ∀ program, call ≠ .enqueue program := fun program eq => queues ⟨program, eq⟩
    rw [call.words_eq_nil other, List.append_nil]
    exact h.act_other other

theorem Stranded.foldl_act {words : List ControlWord} (h : Stranded words m)
    (calls : List (Action δ)) : Stranded (words ++ queued calls) (calls.foldl Machine.act m) := by
  induction calls generalizing words m with
  | nil => simpa [queued] using h
  | cons call rest ih => simpa [queued] using ih (h.act call)

/-- the machine runs through all the calls, or one of them stops it and the rest come too late -/
theorem stranded_foldl_act (runs : m.isRunning) (calls : List (Action δ)) :
    (calls.foldl act m).isRunning ∨ Stranded (queued (m.sinceStop calls)) (calls.foldl act m) := by
  induction calls generalizing m with
  | nil => exact .inl runs
  | cons call rest ih =>
    rw [List.foldl_cons, sinceStop]
    rcases stranded_act runs call with runs | stranded
    · rw [if_pos runs]
      exact ih runs
    · rw [if_neg stranded.stopped]
      exact .inr (stranded.foldl_act rest)

/-- pending on a machine that has stopped are the words queued on it since then, and no others -/
theorem pending_since_stop {memorySize : Nat} {calls : List (Action δ)}
    (stopped : (calls.foldl act (new memorySize)).condition ≠ .running) :
    let m := calls.foldl act (new memorySize)
    let late := (new memorySize).sinceStop calls
    m.queue = queued late ∧ (m.phase = .idle ↔ queued late = []) ∧
      m.snapshot.pending = queued late ∧
      ((∀ program, .enqueue program ∉ late) → m.queue = [] ∧ m.phase = .idle) := by
  intro m late
  rcases stranded_foldl_act (m := new memorySize) rfl calls with runs | stranded
  · exact absurd (beq_iff_eq.1 runs) stopped
  · have idle : m.phase = .idle ↔ m.queue = [] := idle_foldl_act (by simp [new]) calls
    refine ⟨stranded.queue, stranded.queue ▸ idle, stranded.queue, fun none => ?_⟩
    have nothing : queued late = [] := by
      refine List.flatMap_eq_nil_iff.2 fun call mem => call.words_eq_nil ?_
      rintro program rfl
      exact none program mem
    have empty : m.queue = [] := stranded.queue.trans nothing
    exact ⟨empty, idle.2 empty⟩

/-- halted inside a program that would have gone on, with an output and an empty microprogram
queued behind the stop -/
theorem pending_since_stop_halted :
    let early : List (Action Device) := [.attach .mute,
      .load ⟨0, [.of .sum, .of .halt, .of .sum]⟩, .enqueue Opcode.sum.microprogram, .run none]
    let calls := early ++ [.enqueue Opcode.output.microprogram, .tick,
      .enqueue Opcode.jumpZero.microprogram, .load ⟨0, []⟩, .halt, .run none]
    let m := calls.foldl act (new 16)
    m.condition = .halted ∧ m.queue = [.ofList [.ioOut, .peripheralIn]] ∧ m.phase ≠ .idle := by
  intro early calls m
  have halted : m.condition = .halted := by decide +kernel
  have stopped : m.condition ≠ .running := by rw [halted]; decide
  obtain ⟨queue, idle, -, -⟩ := pending_since_stop stopped
  have late : queued ((new 16).sinceStop calls) = [.ofList [.ioOut, .peripheralIn]] := by
    decide +kernel
  rw [late] at queue idle
  exact ⟨halted, queue, fun phase => by cases idle.1 phase⟩

/-- a machine that has stopped may have words pending, and its sequencer is not idle then -/
theorem pending_behind_halt :
    let calls : List (Action Device) := [.halt, .enqueue Opcode.halt.microprogram]
    let m := calls.foldl act (new 4)
    m.condition = .halted ∧ ¬ (m.queue = [] ∧ m.phase = .idle) ∧ m.snapshot.pending ≠ [] := by
  decide +kernel

end Machine
end OneBus
