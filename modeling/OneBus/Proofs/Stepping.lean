import OneBus.Proofs.Backlog
import OneBus.Proofs.Consistency
import OneBus.Proofs.Faults
import OneBus.Proofs.Stopped

/-!
How long a step takes, whatever is pending. A step ticks until no word is pending or the machine has
stopped, and a word that decodes puts more words behind those that are pending, so their number may
grow. What falls with every tick is the work: a tick for each word that is pending, and three more
for each of them that decodes, since no opcode has more words and none of them decodes in turn.
`Loops` is the loop with no bound of its own, and a step is its one outcome.
-/

namespace OneBus

theorem Microprogram.length_words_le (p : Microprogram) : p.words.length ≤ 3 :=
  List.length_filter_le _ p.slots

theorem Opcode.countP_words (op : Opcode) :
    op.microprogram.words.countP (·.contains .instructionIn) = 0 := by
  refine List.countP_eq_zero.2 fun w mem => ?_
  simpa using plain_of_mem_drop (List.mem_append_right (fetch.drop 3) mem)

theorem foldr_work (words : List ControlWord) :
    words.foldr (fun w n => w.work + n) 0 =
      words.length + 3 * words.countP (·.contains .instructionIn) := by
  induction words with
  | nil => rfl
  | cons w words ih =>
    rw [List.foldr_cons, ih, List.length_cons, List.countP_cons, ControlWord.work]
    split <;> omega

namespace Machine

variable {δ : Type}

theorem work_eq (m : Machine δ) :
    m.work = m.pending.length + 3 * m.pending.countP (·.contains .instructionIn) :=
  foldr_work m.pending

variable [Peripheral δ]

/-- a tick that leaves words pending leaves less work -/
theorem work_tick {m : Machine δ} (runs : m.tick.1.isRunning) (pending : m.tick.1.queue ≠ []) :
    m.tick.1.work < m.work := by
  obtain ⟨w, rest, split⟩ := m.exists_pending
  rw [work_eq, work_eq, pending_of_queue rfl pending, split, List.length_cons, List.countP_cons]
  cases decodes : w.contains .instructionIn with
  | false =>
    have queue : m.tick.1.queue = rest :=
      congrArg Control.queue (tick_plain split decodes runs).2
    rw [queue]
    simp
  | true =>
    obtain ⟨op, -, control⟩ := tick_decoding split decodes runs
    have queue : m.tick.1.queue = rest ++ op.microprogram.words := congrArg Control.queue control
    have few := op.microprogram.length_words_le
    rw [queue, List.length_append, List.countP_append, op.countP_words]
    simp
    omega

theorem faulted_of_error {m : Machine δ} (running : m.isRunning) {e : MachineError}
    (fails : m.tick.2 = .error e) : m.tick.1.condition = .faulted ∧ m.tick.1.queue = [] := by
  obtain ⟨f, -, -, behind⟩ := exists_failure running fails
  rw [behind]
  exact ⟨rfl, rfl⟩

/-- what a step does, with no bound: after `n` ticks the last one has failed, has left no word
pending or has stopped the machine; `last` is the opcode decoded before -/
inductive Loops : Machine δ → Option Opcode → Nat →
    Machine δ × Except MachineError (Option Opcode) → Prop
  | fail {m : Machine δ} {last : Option Opcode} {e : MachineError} (fails : m.tick.2 = .error e) :
    Loops m last 1 (m.tick.1, .error e)
  | done {m : Machine δ} {last : Option Opcode} {report : TickReport}
    (ticked : m.tick.2 = .ok report) (rests : m.tick.1.phase = .idle ∨ ¬ m.tick.1.isRunning) :
    Loops m last 1 (m.tick.1, .ok (report.decoded <|> last))
  | more {m : Machine δ} {last : Option Opcode} {report : TickReport} {n : Nat}
    {out : Machine δ × Except MachineError (Option Opcode)} (ticked : m.tick.2 = .ok report)
    (busy : ¬ (m.tick.1.phase = .idle ∨ ¬ m.tick.1.isRunning))
    (rest : Loops m.tick.1 (report.decoded <|> last) n out) : Loops m last (n + 1) out

namespace Loops

variable {m : Machine δ} {last : Option Opcode} {n : Nat}
  {out : Machine δ × Except MachineError (Option Opcode)}

theorem unique (h : Loops m last n out) {k : Nat}
    {other : Machine δ × Except MachineError (Option Opcode)} (h' : Loops m last k other) :
    k = n ∧ other = out := by
  induction h generalizing k other with
  | fail fails =>
    cases h' with
    | fail fails' =>
      cases fails.symm.trans fails'
      exact ⟨rfl, rfl⟩
    | done ticked rests => cases fails.symm.trans ticked
    | more ticked busy rest => cases fails.symm.trans ticked
  | done ticked rests =>
    cases h' with
    | fail fails => cases ticked.symm.trans fails
    | done ticked' rests' =>
      cases ticked.symm.trans ticked'
      exact ⟨rfl, rfl⟩
    | more ticked' busy rest => exact absurd rests busy
  | more ticked busy rest ih =>
    cases h' with
    | fail fails => cases ticked.symm.trans fails
    | done ticked' rests => exact absurd rests busy
    | more ticked' busy' rest' =>
      cases ticked.symm.trans ticked'
      obtain ⟨rfl, rfl⟩ := ih rest'
      exact ⟨rfl, rfl⟩

theorem after (h : Loops m last n out) (running : m.isRunning) :
    out.1 = m.after n ∧ out.1.ticks = m.ticks + n := by
  induction h with
  | fail fails => exact ⟨rfl, ticks_tick running⟩
  | done ticked rests => exact ⟨rfl, ticks_tick running⟩
  | more ticked busy rest ih =>
    obtain ⟨-, runs⟩ := not_or.1 busy
    obtain ⟨same, ticks⟩ := ih (not_not.1 runs)
    refine ⟨same.trans (after_tick ..), ?_⟩
    rw [ticks, ticks_tick running]
    omega

/-- until the loop ends the machine is inside an instruction -/
theorem inside (h : Loops m last n out) {i : Nat} (lower : 1 ≤ i) (upper : i < n) :
    (m.after i).phase ≠ .idle ∧ (m.after i).isRunning := by
  induction h generalizing i with
  | fail fails => omega
  | done ticked rests => omega
  | @more m last report n out ticked busy rest ih =>
    obtain ⟨i, rfl⟩ : ∃ j, i = j + 1 := ⟨i - 1, by omega⟩
    rw [← after_tick]
    cases i with
    | zero =>
      obtain ⟨phase, runs⟩ := not_or.1 busy
      exact ⟨phase, not_not.1 runs⟩
    | succ i => exact ih (by omega) (by omega)

theorem rests (h : Loops m last n out) (running : m.isRunning) :
    out.1.phase = .idle ∧ out.1.queue = [] := by
  induction h with
  | fail fails =>
    have queue := (faulted_of_error running fails).2
    exact ⟨(idle_tick_running running).2 queue, queue⟩
  | done ticked rests =>
    have idle := idle_tick_running running
    rcases rests with phase | stopped
    · exact ⟨phase, idle.1 phase⟩
    · have queue := ((stranded_tick (.inl running)).resolve_left stopped).queue
      exact ⟨idle.2 queue, queue⟩
  | more ticked busy rest ih => exact ih (not_not.1 (not_or.1 busy).2)

theorem faulted_iff (h : Loops m last n out) (running : m.isRunning) :
    out.1.condition = .faulted ↔ ∃ e, out.2 = .error e := by
  induction h with
  | fail fails => simp [(faulted_of_error running fails).1]
  | done ticked rests =>
    rw [condition_of_ok ticked]
    split <;> simp
  | more ticked busy rest ih => exact ih (not_not.1 (not_or.1 busy).2)

end Loops

/-- a bound that covers the work is never what ends the loop -/
theorem loops_stepWithin {bound : Nat} {m : Machine δ} (last : Option Opcode)
    (running : m.isRunning) (enough : m.work ≤ bound) :
    ∃ n, 1 ≤ n ∧ n ≤ m.work ∧ Loops m last n (stepWithin bound last m) := by
  have some := m.work_pos
  induction bound generalizing m last with
  | zero => omega
  | succ bound ih =>
    rw [stepWithin_succ]
    rcases ticked : m.tick with ⟨next, answer⟩
    have behind : m.tick.1 = next := congrArg Prod.fst ticked
    have answered : m.tick.2 = answer := congrArg Prod.snd ticked
    subst behind
    unfold goOn
    cases answer with
    | error e => exact ⟨1, le_rfl, some, .fail answered⟩
    | ok report =>
      dsimp only
      split
      · next rests => exact ⟨1, le_rfl, some, .done answered rests⟩
      · next busy =>
        obtain ⟨phase, runs⟩ := not_or.1 busy
        have runs := not_not.1 runs
        have pending : m.tick.1.queue ≠ [] := fun queue =>
          phase ((idle_tick_running running).2 queue)
        have less := work_tick runs pending
        obtain ⟨n, lower, upper, rest⟩ := ih (report.decoded <|> last) runs (by omega)
          m.tick.1.work_pos
        exact ⟨n + 1, by omega, by omega, .more answered busy rest⟩

theorem loops_step {m : Machine δ} (running : m.isRunning) :
    ∃ n, 1 ≤ n ∧ n ≤ m.work ∧ Loops m none n m.step :=
  loops_stepWithin none running le_rfl

theorem step_rests {m : Machine δ} (running : m.isRunning) :
    m.step.1.phase = .idle ∧ m.step.1.queue = [] := by
  obtain ⟨n, -, -, loop⟩ := loops_step running
  exact loop.rests running

theorem faulted_step_iff {m : Machine δ} (running : m.isRunning) :
    m.step.1.condition = .faulted ↔ ∃ e, m.step.2 = .error e := by
  obtain ⟨n, -, -, loop⟩ := loops_step running
  exact loop.faulted_iff running

/-- a step of a running machine ends by itself, whatever is pending, within a tick for each pending
word and three more for each of them that decodes; the sequencer is idle then and nothing is pending,
also when the machine has stopped -/
theorem step_returns (m : Machine δ) (running : m.isRunning) :
    let words := m.pending
    let decoding := words.countP (·.contains .instructionIn)
    ∃ n, 1 ≤ n ∧ n ≤ words.length + 3 * decoding ∧
      (∀ k out, Loops m none k out ↔ k = n ∧ out = m.step) ∧
      m.step.1 = m.after n ∧ m.step.1.ticks = m.ticks + n ∧
      m.step.1.phase = .idle ∧ m.step.1.queue = [] ∧
      (m.queue = [] → words.length = 6 ∧ decoding = 1 ∧ n ≤ 9) := by
  intro words decoding
  obtain ⟨n, lower, upper, loop⟩ := loops_step running
  obtain ⟨same, ticks⟩ := loop.after running
  obtain ⟨phase, queue⟩ := loop.rests running
  rw [work_eq] at upper
  refine ⟨n, lower, upper, fun k out => ⟨loop.unique, ?_⟩, same, ticks, phase, queue, ?_⟩
  · rintro ⟨rfl, rfl⟩
    exact loop
  · intro empty
    have fetching : m.pending = fetch := by simp [pending, empty]
    have length : words.length = 6 := congrArg List.length fetching
    have one : decoding = 1 := by
      change m.pending.countP _ = 1
      rw [fetching]
      decide
    change n ≤ words.length + 3 * decoding at upper
    exact ⟨length, one, by omega⟩

/-- two words that decode an addition each: the step takes all the ticks that it may -/
theorem step_returns_additions :
    let w := ControlWord.ofList [.memoryOut, .instructionIn]
    let m : Machine Device := [.poke 0 Opcode.add.id, .enqueue ⟨w, w, .empty⟩].foldl act (new 80)
    m.isRunning ∧ m.pending = [w, w] ∧ m.step.1.ticks = 8 ∧ m.step.1 = m.after 8 ∧
      m.step.1.queue = [] ∧ ∃ n ≤ 2 + 3 * 2, Loops m none n m.step := by
  intro w m
  have running : m.isRunning := by decide
  have pending : m.pending = [w, w] := by decide
  have decoding : [w, w].countP (·.contains .instructionIn) = 2 := by decide
  have ticks : m.step.1.ticks = 8 := by decide +kernel
  have start : m.ticks = 0 := by decide
  obtain ⟨n, -, upper, loops, same, count, -, queue, -⟩ := step_returns m running
  rw [pending, decoding] at upper
  obtain rfl : n = 8 := by omega
  exact ⟨running, pending, ticks, same, queue, 8, upper, (loops 8 m.step).2 ⟨rfl, rfl⟩⟩

end Machine
end OneBus
