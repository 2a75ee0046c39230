import OneBus.Debugger.Basic
import OneBus.Proofs.Actions

/-!
However a machine is driven, it goes the way of its ticks. A step, a run at any rate and with any
limit, and every command of the debugger leave the machine as it is after some number of ticks,
and that number is what its counter has moved by: a tick of a running machine counts, also one
that fails, and a stopped machine does not move. So a breakpoint or a limit decides how far a
machine gets, never what it does on the way.
-/

namespace OneBus
namespace Machine

variable {δ : Type} [Peripheral δ]

theorem ticks_tick {m : Machine δ} (running : m.isRunning) : m.tick.1.ticks = m.ticks + 1 := by
  refine tick_ends (Q := fun n => n.ticks = m.ticks) (R := fun n => n.ticks = m.ticks + 1)
    running rfl ?_ ?_ ?_ ?_
  · exact fun n s _ h => Ends.drive s (fun _ => h) fun _ _ _ _ => h
  · exact fun n a s _ h =>
      Ends.latch a s h (fun _ _ => h) (fun _ _ _ _ => h) (fun _ _ => h) fun _ _ _ => h
  · intro n h
    have same : (n.finish m.word).ticks = n.ticks := by
      unfold finish
      cases m.word.contains .programCounterIncrement <;> cases m.word.contains .halt <;> rfl
    exact congrArg (· + 1) (same.trans h)
  · exact fun n e h => congrArg (· + 1) h

theorem isRunning_of_ok {m : Machine δ} {report : TickReport} (done : m.tick.2 = .ok report) :
    m.isRunning := by
  by_contra stopped
  rw [tick_stopped stopped] at done
  cases done

/-- `n` is `m` after as many ticks as its counter has moved by -/
def Advances (m n : Machine δ) : Prop := ∃ d, n.ticks = m.ticks + d ∧ n = m.after d

theorem Advances.refl (m : Machine δ) : Advances m m := ⟨0, rfl, rfl⟩

theorem Advances.trans {k m n : Machine δ} (h : Advances k m) (h' : Advances m n) :
    Advances k n := by
  obtain ⟨i, ticks, rfl⟩ := h
  obtain ⟨j, ticks', rfl⟩ := h'
  exact ⟨i + j, by rw [ticks', ticks, Nat.add_assoc], (after_add k i j).symm⟩

theorem Advances.tick (m : Machine δ) : Advances m m.tick.1 := by
  by_cases running : m.isRunning
  · exact ⟨1, ticks_tick running, rfl⟩
  · rw [tick_stopped running]
    exact .refl m

theorem Advances.isRunning {m n : Machine δ} (h : Advances m n) (runs : n.isRunning) :
    m.isRunning := by
  obtain ⟨d, -, rfl⟩ := h
  exact isRunning_of_le (Nat.zero_le d) runs

theorem Advances.after (m : Machine δ) (n : Nat) : Advances m (m.after n) :=
  after_keeps (fun _ h => h.trans (.tick _)) (.refl m) n

/-- how far the counter has moved decides on the machine -/
theorem Advances.eq_after {m n : Machine δ} (h : Advances m n) :
    m.ticks ≤ n.ticks ∧ n = m.after (n.ticks - m.ticks) := by
  obtain ⟨d, ticks, eq⟩ := h
  have moved : n.ticks - m.ticks = d := by omega
  exact ⟨by omega, by rw [moved, eq]⟩

theorem Advances.act (m : Machine δ) {call : Action δ} (driving : call.advances) :
    Advances m (m.act call) := by
  obtain ⟨n, eq⟩ := m.exists_after_act driving
  rw [eq]
  exact .after m n

theorem Advances.step (m : Machine δ) : Advances m m.step.1 := by
  have driving : (Action.step : Action δ).advances := rfl
  exact .act m driving

theorem Advances.foldl_act (m : Machine δ) (calls : List (Action δ))
    (driving : ∀ c ∈ calls, c.advances) : Advances m (calls.foldl Machine.act m) := by
  induction calls generalizing m with
  | nil => exact .refl m
  | cons call rest ih =>
    have first : Advances m (m.act call) := .act m (driving call List.mem_cons_self)
    exact first.trans (ih _ fun c mem => driving c (List.mem_cons_of_mem _ mem))

theorem issue_count {limited : Bool} {left issued count : Nat} {m : Machine δ}
    (done : (Clock.issue (fun _ => beat) limited left issued m).1 = some (.ok count)) :
    ∃ d ≤ left, count = issued + d ∧
      (Clock.issue (fun _ => beat) limited left issued m).2.ticks = m.ticks + d := by
  induction left generalizing m issued with
  | zero =>
    cases limited with
    | false => cases done
    | true =>
      cases done
      exact ⟨0, le_rfl, rfl, rfl⟩
  | succ left ih =>
    rw [Clock.issue_succ, beat] at done ⊢
    rcases ticked : m.tick with ⟨next, answer⟩
    rw [ticked] at done
    cases answer with
    | error e => cases done
    | ok report =>
      have running : m.isRunning := isRunning_of_ok (congrArg Prod.snd ticked)
      have one : next.ticks = m.ticks + 1 := by rw [← ticks_tick running, ticked]
      dsimp only at done ⊢
      cases going : next.isRunning with
      | false =>
        rw [going] at done
        cases done
        exact ⟨1, by omega, rfl, one⟩
      | true =>
        rw [going] at done
        obtain ⟨d, bound, counted, ticks⟩ := ih done
        exact ⟨d + 1, by omega, by omega, by dsimp only; rw [ticks, one]; omega⟩

theorem stopped_of_error {m : Machine δ} {e : MachineError} (fails : m.tick.2 = .error e) :
    ¬ m.tick.1.isRunning := by
  by_cases running : m.isRunning
  · rw [tick_running running] at fails ⊢
    cases outcome : (m.begun.note (.tick m.ticks m.word)).assert m.word with
    | ok n =>
      rw [outcome] at fails
      cases fails
    | error failure => exact Bool.false_ne_true
  · rwa [tick_stopped running]

/-- a run has no result if it may go on for ever and has used up its ticks -/
theorem issue_eq_none_iff {limited : Bool} {left issued : Nat} {m : Machine δ}
    (running : m.isRunning) :
    (Clock.issue (fun _ => beat) limited left issued m).1 = none ↔
      limited = false ∧ (m.after left).isRunning := by
  induction left generalizing m issued with
  | zero =>
    cases limited with
    | false => exact iff_of_true rfl ⟨rfl, running⟩
    | true => exact iff_of_false (Option.some_ne_none _) fun ends => Bool.noConfusion ends.1
  | succ left ih =>
    have further : m.after (left + 1) = m.tick.1.after left := by
      rw [Nat.add_comm, after_add]
      rfl
    have ended (stopped : ¬ m.tick.1.isRunning) : ¬ (m.after (left + 1)).isRunning := by
      rw [further]
      exact fun runs => stopped (isRunning_of_le (Nat.zero_le left) runs)
    rw [Clock.issue_succ, beat]
    rcases ticked : m.tick with ⟨next, answer⟩
    rw [ticked] at further ended
    cases answer with
    | error e =>
      have stopped := stopped_of_error (congrArg Prod.snd ticked)
      rw [ticked] at stopped
      simp [ended stopped]
    | ok report =>
      dsimp only
      cases going : next.isRunning with
      | false => simp [ended (by simp [going])]
      | true =>
        rw [further]
        exact ih going

theorem runOn_stopped {m : Machine δ} (stopped : ¬ m.isRunning) (clock : Clock)
    (limit : Option Nat) :
    m.runOn clock limit =
      (m, some (if limit = some 0 then .ok 0 else .error (.notRunning m.condition))) := by
  rw [runOn, Clock.run_noWait]
  by_cases none : limit = some 0
  · rw [none, if_pos rfl]
    rfl
  · obtain ⟨count, bound⟩ : ∃ count, limit.getD Clock.maxTicks = count + 1 := by
      cases limit with
      | none => exact ⟨Clock.maxTicks - 1, rfl⟩
      | some l =>
        have positive : l ≠ 0 := fun zero => none (congrArg some zero)
        exact ⟨l - 1, by rw [Option.getD_some]; omega⟩
    rw [if_neg none, bound, Clock.issue_succ, beat, tick_stopped stopped]
    rfl

theorem runOn_eq_none_iff (clock : Clock) (limit : Option Nat) (m : Machine δ) :
    (m.runOn clock limit).2 = none ↔ limit = none ∧ (m.after Clock.maxTicks).isRunning := by
  by_cases running : m.isRunning
  · rw [runOn, Clock.run_noWait]
    refine (issue_eq_none_iff running).trans ?_
    cases limit with
    | none => exact and_congr_left fun _ => iff_of_true rfl rfl
    | some l =>
      exact iff_of_false (fun ends => Bool.noConfusion ends.1) fun ends =>
        Option.some_ne_none l ends.1
  · rw [runOn_stopped running]
    have still (runs : (m.after Clock.maxTicks).isRunning) : m.isRunning :=
      isRunning_of_le (Nat.zero_le _) runs
    exact iff_of_false (Option.some_ne_none _) fun ends => running (still ends.2)

theorem runOn_count {clock : Clock} {limit : Option Nat} {m : Machine δ} {count : Nat}
    (done : (m.runOn clock limit).2 = some (.ok count)) :
    (m.runOn clock limit).1.ticks = m.ticks + count ∧ ∀ l, limit = some l → count ≤ l := by
  rw [runOn, Clock.run_noWait] at done ⊢
  obtain ⟨d, bound, counted, ticks⟩ := issue_count done
  obtain rfl : count = d := counted.trans (Nat.zero_add d)
  refine ⟨ticks, ?_⟩
  rintro l rfl
  exact bound

end Machine

namespace Debugger

open Machine (Advances)

/-- what can be asked of the debugger, short of starting over -/
inductive Command
  | tickOnce | step | run | tick | toggleBreakpoint
  | addBreakpoint (address : Word)
  deriving DecidableEq

def obey (d : Debugger) : Command → Debugger
  | .tickOnce => d.tickOnce
  | .step => d.step
  | .run => d.run
  | .tick => d.tick
  | .toggleBreakpoint => d.toggleBreakpoint
  | .addBreakpoint address => d.addBreakpoint address

theorem advances_tickOnce (d : Debugger) : Advances d.machine d.tickOnce.machine := by
  have ticked : Advances d.machine d.machine.tick.1 := .tick d.machine
  unfold tickOnce
  split
  · rw [lend_eq]
    generalize d.machine.tick = outcome at ticked
    obtain ⟨m, report | e⟩ := outcome <;> exact ticked
  · exact .refl d.machine

theorem advances_step (d : Debugger) : Advances d.machine d.step.machine := by
  have stepped : Advances d.machine (stepFrom d.machine).1 := .step d.machine
  unfold step
  split
  · rw [lend_eq]
    generalize stepFrom d.machine = outcome at stepped
    obtain ⟨m, start, e | none | op⟩ := outcome <;> exact stepped
  · exact .refl d.machine

theorem advances_tick (d : Debugger) : Advances d.machine d.tick.machine := by
  unfold tick
  split
  · exact .refl d.machine
  · split
    · exact .refl d.machine
    · have stepped := d.advances_step
      generalize d.step = next at stepped
      dsimp only
      split <;> exact stepped

theorem advances_obey (d : Debugger) (c : Command) : Advances d.machine (d.obey c).machine := by
  cases c with
  | tickOnce => exact d.advances_tickOnce
  | step => exact d.advances_step
  | tick => exact d.advances_tick
  | run | addBreakpoint address => exact .refl d.machine
  | toggleBreakpoint =>
    rw [obey, toggleBreakpoint]
    split <;> exact .refl d.machine

theorem advances_foldl_obey (d : Debugger) (commands : List Command) :
    Advances d.machine (commands.foldl obey d).machine := by
  induction commands generalizing d with
  | nil => exact .refl d.machine
  | cons c rest ih => exact (d.advances_obey c).trans (ih _)

theorem ticks_boot (image : Image) (memorySize : Nat) : (boot image memorySize).ticks = 0 := by
  rw [boot, Machine.ofImage, Machine.load]
  split <;> rfl

theorem eq_after_of_fresh {image : Image} {memorySize : Nat} {m : Machine Device}
    (h : Advances (boot image memorySize) m) : m = (boot image memorySize).after m.ticks := by
  have eq := h.eq_after.2
  rwa [ticks_boot, Nat.sub_zero] at eq

end Debugger

namespace Machine

/-- Every way to drive a machine is a number of ticks, and a run that ends well gives that number. It is
without a result only if it has no limit and the machine still runs when the ticks can no longer be
counted. The debugger, whatever its breakpoints, shows a fresh machine after as many ticks as it
counts. -/
theorem driven_eq_after {δ : Type} [Peripheral δ] (m : Machine δ) (calls : List (Action δ))
    (driving : ∀ c ∈ calls, c.advances) :
    (m.ticks ≤ (calls.foldl act m).ticks ∧
      calls.foldl act m = m.after ((calls.foldl act m).ticks - m.ticks)) ∧
    (∀ clock limit, (m.runOn clock limit).2 = none ↔
      limit = none ∧ (m.after Clock.maxTicks).isRunning) ∧
    (∀ limit count, (m.run limit).2 = some (.ok count) →
      (m.run limit).1.ticks = m.ticks + count ∧ ∀ l, limit = some l → count ≤ l) ∧
    (∀ clock limit count, (m.runOn clock limit).2 = some (.ok count) →
      (m.runOn clock limit).1.ticks = m.ticks + count ∧ ∀ l, limit = some l → count ≤ l) ∧
    ∀ commands : List Debugger.Command,
      (∀ image memorySize, let d := commands.foldl Debugger.obey (.new image memorySize)
        d.machine = (Debugger.boot image memorySize).after d.machine.ticks) ∧
      ∀ before : Debugger, let d := commands.foldl Debugger.obey before.reset
        d.machine = (Debugger.boot before.image before.memorySize).after d.machine.ticks := by
  refine ⟨(Advances.foldl_act m calls driving).eq_after, ?_, ?_, ?_, fun commands => ⟨?_, ?_⟩⟩
  · exact fun clock limit => m.runOn_eq_none_iff clock limit
  · exact fun limit count done => runOn_count done
  · exact fun clock limit count done => runOn_count done
  · exact fun image memorySize =>
      Debugger.eq_after_of_fresh (Debugger.advances_foldl_obey (.new image memorySize) commands)
  · exact fun before =>
      Debugger.eq_after_of_fresh (Debugger.advances_foldl_obey before.reset commands)

/-- a machine that halts on the way, and a debugger that a breakpoint holds up -/
theorem driven_eq_after_out_halt :
    let image : Image := ⟨0, [.of .output, .of .halt]⟩
    let m : Machine Device := boot image 16 [.display {}]
    let calls : List (Action Device) :=
      [.tick, .run (some 4), .step, .runOn (.ofRate 5) (some 20), .step, .tick]
    let commands : List Debugger.Command := [.tickOnce, .addBreakpoint 4, .run, .tick, .tick]
    let d := commands.foldl Debugger.obey (.new image 16)
    (∀ c ∈ calls, c.advances) ∧ calls.foldl act m = m.after 14 ∧
      (m.run (some 20)).2 = some (.ok 14) ∧ (m.run (some 20)).1.ticks = 14 ∧
      d.running = false ∧ d.machine = (Debugger.boot image 16).after 7 := by
  intro image m calls commands d
  have driving : ∀ c ∈ calls, c.advances := by decide
  obtain ⟨⟨-, same⟩, -, runs, -, debugged⟩ := driven_eq_after m calls driving
  have moved : (calls.foldl act m).ticks - m.ticks = 14 := by decide +kernel
  have count : (m.run (some 20)).2 = some (.ok 14) := by decide +kernel
  have start : m.ticks = 0 := by rfl
  have held : d.machine.ticks = 7 := by decide +kernel
  have fresh : d.machine = (Debugger.boot image 16).after d.machine.ticks :=
    (debugged commands).1 image 16
  rw [moved] at same
  rw [held] at fresh
  exact ⟨driving, same, count, by rw [(runs _ _ count).1, start], by decide +kernel, fresh⟩

end Machine
end OneBus
