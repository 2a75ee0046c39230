import OneBus.Proofs.Breakpoints

/-!
What the debugger reports when a run ends. A call of `tick` that ends one does so in one of three
ways, `Ended`, and the text of the status tells which: the machine had stopped before, the step of
this call has failed, or the program counter is on a breakpoint. Only a failed step leaves the
machine faulted. A breakpoint is looked for behind every step that has not failed, so behind a halt
too: a machine that has halted with its program counter on a breakpoint is reported as held there,
although no fetch follows.
-/

namespace OneBus

/-- the text of the status begins with these words -/
def Status.Begins (s : Status) (words : String) : Prop := words.toList <+: s.text.toList

theorem Status.begins_of_append {s : Status} {words : String} (more : String)
    (eq : s.text = words ++ more) : s.Begins words := by
  rw [Begins, eq, String.toList_append]
  exact List.prefix_append _ _

theorem Status.Begins.apart {s : Status} {words others : String} (begins : s.Begins words)
    (differ : ¬ (words.toList <+: others.toList ∨ others.toList <+: words.toList)) :
    ¬ s.Begins others :=
  fun other => differ (List.prefix_or_prefix_of_prefix begins other)

namespace Debugger

/-- how a call of `tick` ends a run: `e` is what it makes of `d` -/
inductive Ended (d e : Debugger) : Prop
  | stopped (before : ¬ d.machine.isRunning) (status : e.status = .stoppedAfter d.machine.ticks)
  | failed (running : d.machine.isRunning) (error : MachineError)
    (fault : e.machine.condition = .faulted) (status : e.status = .failed error)
  | held (running : d.machine.isRunning) (sound : e.machine.condition ≠ .faulted)
    (rests : e.machine.phase = .idle ∧ e.machine.queue = [])
    (breakpoint : e.machine.counter ∈ d.breakpoints)
    (status : e.status = .breakpoint e.machine.counter)

section

variable {d e : Debugger}

theorem ended_tick (going : d.running) (cleared : d.tick.running = false) : Ended d d.tick := by
  by_cases running : d.machine.isRunning
  · have condition := Machine.faulted_step_iff running
    cases outcome : d.machine.step.2 with
    | error e =>
      rw [tick_of_error going running outcome]
      exact .failed running e (condition.2 ⟨e, outcome⟩) rfl
    | ok answer =>
      have sound : d.machine.step.1.condition ≠ .faulted := by
        rw [Ne, condition, outcome]
        simp
      rw [tick_of_ok going running outcome] at cleared ⊢
      by_cases held : d.machine.step.1.counter ∈ d.breakpoints
      · rw [if_pos held]
        exact .held running sound (Machine.step_rests running) held rfl
      · rw [if_neg held] at cleared
        cases going.symm.trans cleared
  · rw [tick_stopped going running]
    exact .stopped running rfl

/-- the three texts begin differently -/
theorem Ended.reason (h : Ended d e) :
    (e.status.Begins "Stopped after" ↔ ¬ d.machine.isRunning) ∧
      (e.status.Begins "Error: " ↔ d.machine.isRunning ∧ e.machine.condition = .faulted) ∧
      (e.status.Begins "Breakpoint at PC=" ↔
        d.machine.isRunning ∧ e.machine.condition ≠ .faulted) := by
  cases h with
  | stopped before status =>
    have begins : e.status.Begins "Stopped after" :=
      status ▸ Status.begins_of_append (s := .stoppedAfter d.machine.ticks)
        (" " ++ (Text.decimal d.machine.ticks ++ " ticks")) rfl
    exact ⟨iff_of_true begins before,
      iff_of_false (begins.apart (by decide)) fun h => before h.1,
      iff_of_false (begins.apart (by decide)) fun h => before h.1⟩
  | failed running error fault status =>
    have begins : e.status.Begins "Error: " :=
      status ▸ Status.begins_of_append (s := .failed error) error.message rfl
    exact ⟨iff_of_false (begins.apart (by decide)) fun h => h running,
      iff_of_true begins ⟨running, fault⟩,
      iff_of_false (begins.apart (by decide)) fun h => h.2 fault⟩
  | held running sound rests breakpoint status =>
    have begins : e.status.Begins "Breakpoint at PC=" :=
      status ▸ Status.begins_of_append (s := .breakpoint e.machine.counter)
        (Text.decimal e.machine.counter.toInt) rfl
    exact ⟨iff_of_false (begins.apart (by decide)) fun h => h running,
      iff_of_false (begins.apart (by decide)) fun h => sound h.2,
      iff_of_true begins ⟨running, sound⟩⟩

/-- a halt that no breakpoint hides is reported by the next call -/
theorem tick_of_halted (going : d.running) (running : d.machine.isRunning)
    (halted : d.tick.machine.condition = .halted) :
    (d.tick.running = false ↔ d.tick.machine.counter ∈ d.breakpoints) ∧
      (d.tick.running → d.tick.tick =
        { d.tick with running := false, status := .stoppedAfter d.tick.machine.ticks }) := by
  refine ⟨?_, fun still => tick_stopped still (by simp [Machine.isRunning, halted])⟩
  cases outcome : d.machine.step.2 with
  | error e =>
    have fault := (Machine.faulted_step_iff running).2 ⟨e, outcome⟩
    rw [tick_machine going running, fault] at halted
    cases halted
  | ok answer =>
    rw [tick_of_ok going running outcome]
    split
    · next held => exact iff_of_true rfl held
    · next free => exact iff_of_false (by simp [moved, going]) free

end

/-- the status of a run that a call of `tick` ends tells how it ended. The machine had stopped before,
or it has failed in this call, or else its program counter is on a breakpoint; it fetches from there
next, unless it has halted. A halt with the program counter elsewhere leaves the run to the next call -/
theorem status_tells_reason (d : Debugger) (going : d.running) :
    (d.tick.running = false →
      (d.tick.status.Begins "Stopped after" ↔ ¬ d.machine.isRunning) ∧
      (d.tick.status.Begins "Error: " ↔
        d.machine.isRunning ∧ d.tick.machine.condition = .faulted) ∧
      (d.tick.status.Begins "Breakpoint at PC=" ↔
        d.machine.isRunning ∧ d.tick.machine.condition ≠ .faulted) ∧
      (d.tick.status.Begins "Breakpoint at PC=" →
        d.tick.status.text =
            "Breakpoint at PC=" ++ Text.decimal d.tick.machine.counter.toInt ∧
          d.tick.machine.counter ∈ d.breakpoints ∧ d.tick.machine.phase = .idle ∧
          (d.tick.machine.isRunning → d.tick.machine.Fetches d.tick.machine.counter))) ∧
    (d.machine.isRunning → d.tick.machine.condition = .halted →
      (d.tick.running = false ↔ d.tick.machine.counter ∈ d.breakpoints) ∧
      (d.tick.running → d.tick.tick =
        { d.tick with running := false, status := .stoppedAfter d.tick.machine.ticks })) := by
  refine ⟨fun cleared => ?_, fun running halted => tick_of_halted going running halted⟩
  have ended := ended_tick going cleared
  obtain ⟨stopped, failed, held⟩ := ended.reason
  refine ⟨stopped, failed, held, fun begins => ?_⟩
  obtain ⟨running, sound⟩ := held.1 begins
  cases ended with
  | stopped before status => exact absurd running before
  | failed running error fault status => exact absurd fault sound
  | held running sound rests breakpoint status =>
    exact ⟨congrArg Status.text status, breakpoint, rests.1,
      fun runs => Machine.fetches_of_empty runs rests.2⟩

/-- a run that a breakpoint ends, one that a word without an opcode ends, and one that halts with the
program counter on no breakpoint -/
theorem status_tells_reason_each :
    let held := ((new ⟨0, [.of (.loadImmediate .a) 1, .of .halt]⟩ 16).addBreakpoint 4).run
    let failed := (new ⟨0, [⟨99, 0⟩]⟩ 16).run
    let halted := (new ⟨0, [.of .halt]⟩ 16).run
    (held.running ∧ held.tick.running = false ∧ held.tick.status.Begins "Breakpoint at PC=" ∧
      held.tick.machine.isRunning ∧ held.tick.machine.Fetches 4) ∧
    (failed.running ∧ failed.tick.running = false ∧ failed.tick.status.Begins "Error: ") ∧
    (halted.running ∧ halted.machine.isRunning ∧ halted.tick.machine.condition = .halted ∧
      halted.tick.running ∧ halted.tick.tick.running = false ∧
      halted.tick.tick.status.Begins "Stopped after") := by
  intro held failed halted
  have heldCleared : held.tick.running = false := by decide +kernel
  have heldRuns : held.tick.machine.isRunning := by decide +kernel
  have counter : held.tick.machine.counter = 4 := by decide +kernel
  obtain ⟨-, -, breakpoint, there⟩ := (status_tells_reason held rfl).1 heldCleared
  have begins := breakpoint.2 ⟨by decide, by decide +kernel⟩
  have failedCleared : failed.tick.running = false := by decide +kernel
  obtain ⟨-, error, -, -⟩ := (status_tells_reason failed rfl).1 failedCleared
  have stop : halted.tick.machine.condition = .halted := by decide +kernel
  have still : halted.tick.running := by decide +kernel
  have last := ((status_tells_reason halted rfl).2 (by decide) stop).2 still
  have cleared : halted.tick.tick.running = false := congrArg Debugger.running last
  obtain ⟨stopped, -, -, -⟩ := (status_tells_reason halted.tick still).1 cleared
  exact ⟨⟨rfl, heldCleared, begins, heldRuns, counter ▸ (there begins).2.2.2 heldRuns⟩,
    ⟨rfl, failedCleared, error.2 ⟨by decide, by decide +kernel⟩⟩,
    ⟨rfl, by decide, stop, still, cleared, stopped.2 (by simp [Machine.isRunning, stop])⟩⟩

/-- a program that halts with its program counter on a breakpoint is reported as held there -/
theorem halt_reported_as_breakpoint :
    let d := ((new ⟨0, [.of .halt]⟩ 16).addBreakpoint 4).run
    d.running ∧ d.machine.isRunning ∧ d.tick.running = false ∧
      d.tick.machine.condition = .halted ∧ ¬ d.tick.machine.isRunning ∧
      d.tick.status.Begins "Breakpoint at PC=" := by
  intro d
  have status : d.tick.status = .breakpoint 4 := by decide +kernel
  exact ⟨rfl, by decide, by decide +kernel, by decide +kernel, by decide +kernel,
    status ▸ Status.begins_of_append (s := .breakpoint 4) "4" (by decide)⟩

end Debugger
end OneBus
