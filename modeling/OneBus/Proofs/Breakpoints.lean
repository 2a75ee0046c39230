import Mathlib.Data.Nat.Find
import Mathlib.Order.Bounds.Defs
import OneBus.Debugger.Basic
import OneBus.Proofs.Stepping

/-!
Where a continuous run of the debugger ends. Each call of `tick` takes one step and then looks at the
breakpoints, so a run is steps one after the other, `Going`, up to the first one behind which
something ends it: `EndsAt`. A machine that has halted is noticed one call later, and that call
leaves it alone. Read in ticks, the only opcode that may come from an address with a breakpoint is
that of the first step.
-/

namespace OneBus
namespace Machine

variable {δ : Type} [Peripheral δ]

/-- the machine after so many steps -/
def steps (m : Machine δ) : Nat → Machine δ
  | 0 => m
  | k + 1 => (m.steps k).step.1

section

variable {m : Machine δ} (running : m.isRunning) (empty : m.queue = []) (phase : m.phase = .idle)

include running empty phase

/-- in a step that begins between two instructions an opcode is read once, with the third tick -/
theorem second_of_opening {i : Nat} (early : m.ticks + i < m.step.1.ticks)
    (opens : (m.after i).word.contains .instructionIn) : i = 2 := by
  obtain ⟨n, -, -, loop⟩ := loops_step running
  have early : i < n := by
    have ticks := (loop.after running).2
    omega
  have runs : (m.after i).isRunning := by
    cases i with
    | zero => exact running
    | succ i => exact (loop.inside (by omega) early).2
  have words := place_decoding (place_after empty phase runs) opens
  have count := (counters_after m runs).2.1
  rw [words, List.length_append, length_script] at count
  have count : duration (m.history i) + 2 = i := count
  -- a second opcode would be behind the end of the first instruction, where the step is over
  rcases duration_gap (m.history i) with none | some
  · omega
  · have bound : duration (m.history i) ≤ i := by omega
    have idle := (idle_at_duration empty phase runs List.prefix_rfl bound).2
    exact absurd idle (loop.inside (by omega) (by omega)).1

theorem address_of_opening {i : Nat} (early : m.ticks + i < m.step.1.ticks)
    (opens : (m.after i).word.contains .instructionIn) :
    (m.after i).registers.address = m.counter := by
  obtain rfl := second_of_opening running empty phase early opens
  exact (fetches_of_empty running empty).address

end

end Machine

namespace Debugger

open Machine (Advances)

/-- the debugger after so many calls of `tick` -/
def ticked (d : Debugger) : Nat → Debugger
  | 0 => d
  | n + 1 => (d.ticked n).tick

/-- the status behind a step that has not failed -/
def stepStatus (start : Word) : Option Opcode → Status
  | some op => .stepped start op
  | none => .finished

section

variable {d : Debugger}

theorem tick_held (held : d.running = false) : d.tick = d := by
  simp [tick, held]

theorem tick_stopped (going : d.running) (stopped : ¬ d.machine.isRunning) :
    d.tick = { d with running := false, status := .stoppedAfter d.machine.ticks } := by
  simp [tick, going, stopped]

theorem step_of_error (running : d.machine.isRunning) {e : MachineError}
    (fails : d.machine.step.2 = .error e) :
    d.step = { d.moved d.machine.step.1 with status := .failed e, running := false } := by
  have outcome : stepFrom d.machine = (d.machine.step.1, d.counter, d.machine.step.2) := rfl
  rw [step, if_pos running, lend_eq, outcome, fails]
  rfl

theorem step_of_ok (running : d.machine.isRunning) {answer : Option Opcode}
    (done : d.machine.step.2 = .ok answer) :
    d.step = { d.moved d.machine.step.1 with status := stepStatus d.counter answer } := by
  have outcome : stepFrom d.machine = (d.machine.step.1, d.counter, d.machine.step.2) := rfl
  rw [step, if_pos running, lend_eq, outcome, done]
  cases answer <;> rfl

theorem tick_of_error (going : d.running) (running : d.machine.isRunning) {e : MachineError}
    (fails : d.machine.step.2 = .error e) :
    d.tick = { d.moved d.machine.step.1 with status := .failed e, running := false } := by
  simp [tick, going, running, step_of_error running fails]

/-- the sequencer is idle behind a step, so it is the breakpoints alone that decide -/
theorem tick_of_ok (going : d.running) (running : d.machine.isRunning) {answer : Option Opcode}
    (done : d.machine.step.2 = .ok answer) :
    d.tick = if d.machine.step.1.counter ∈ d.breakpoints then
        { d.moved d.machine.step.1 with
          running := false
          status := .breakpoint d.machine.step.1.counter }
      else
        { d.moved d.machine.step.1 with status := stepStatus d.counter answer } := by
  have idle := (Machine.step_rests running).1
  simp [tick, going, running, step_of_ok running done, moved, atBreakpoint, idle, counter]

theorem tick_machine (going : d.running) (running : d.machine.isRunning) :
    d.tick.machine = d.machine.step.1 := by
  cases outcome : d.machine.step.2 with
  | error e =>
    rw [tick_of_error going running outcome]
    rfl
  | ok answer =>
    rw [tick_of_ok going running outcome]
    split <;> rfl

end

/-- what may end a run behind its `k`-th step -/
inductive EndsAt (d : Debugger) : Nat → Prop
  | stopped {k : Nat} (stopped : ¬ (d.machine.steps (k + 1)).isRunning) : EndsAt d (k + 1)
  | failed {k : Nat} {e : MachineError} (fails : (d.machine.steps k).step.2 = .error e) :
    EndsAt d (k + 1)
  | breakpoint {k : Nat} (held : (d.machine.steps (k + 1)).counter ∈ d.breakpoints) :
    EndsAt d (k + 1)

/-- the call of `tick` that clears the running flag of a run -/
def Clears (d : Debugger) (n : Nat) : Prop :=
  (∀ i < n, (d.run.ticked i).running) ∧ (d.run.ticked n).running = false

/-- a run of `d` that goes on behind `n` steps, with `e` for the debugger there -/
structure Going (d : Debugger) (n : Nat) (e : Debugger) : Prop where
  running : e.running
  breakpoints : e.breakpoints = d.breakpoints
  machine : e.machine = d.machine.steps n
  runs : e.machine.isRunning
  none : ∀ k ≤ n, ¬ d.EndsAt k

section

variable {d e : Debugger} {n : Nat}

theorem Going.run (running : d.machine.isRunning) : Going d 0 d.run := by
  refine ⟨rfl, rfl, rfl, running, fun k bound ends => ?_⟩
  cases ends <;> omega

theorem Going.behind (h : Going d n e) : e.machine.step.1 = d.machine.steps (n + 1) :=
  congrArg (·.step.1) h.machine

theorem Going.tick (h : Going d n e) (none : ¬ d.EndsAt (n + 1)) : Going d (n + 1) e.tick := by
  cases outcome : e.machine.step.2 with
  | error error =>
    rw [h.machine] at outcome
    exact absurd (.failed outcome) none
  | ok answer =>
    have free : e.machine.step.1.counter ∉ e.breakpoints := by
      rw [h.behind, h.breakpoints]
      exact fun held => none (.breakpoint held)
    have runs : e.machine.step.1.isRunning := by
      rw [h.behind]
      by_contra stopped
      exact none (.stopped stopped)
    rw [tick_of_ok h.running h.runs outcome, if_neg free]
    refine ⟨h.running, h.breakpoints, h.behind, runs, fun k bound => ?_⟩
    rcases Nat.le_succ_iff.1 bound with bound | rfl
    · exact h.none k bound
    · exact none

/-- the call that takes the last step, or leaves a halted machine to the next call -/
theorem Going.last (h : Going d n e) (ends : d.EndsAt (n + 1)) (going : e.tick.running) :
    ¬ e.tick.machine.isRunning := by
  cases outcome : e.machine.step.2 with
  | error error =>
    rw [tick_of_error h.running h.runs outcome] at going
    cases going
  | ok answer =>
    rw [tick_of_ok h.running h.runs outcome, h.behind, h.breakpoints] at going ⊢
    split at going
    · cases going
    · next free =>
      rw [if_neg free]
      cases ends with
      | stopped stopped => exact stopped
      | failed fails =>
        rw [← h.machine, outcome] at fails
        cases fails
      | breakpoint held => exact absurd held free

theorem going_ticked (going : (d.run.ticked n).running) (runs : (d.run.ticked n).machine.isRunning) :
    Going d n (d.run.ticked n) := by
  induction n with
  | zero => exact .run runs
  | succ n ih =>
    have held : (d.run.ticked n).running := by
      by_contra held
      have same : (d.run.ticked n).tick = d.run.ticked n := tick_held (by simpa using held)
      exact held (same ▸ going)
    have before := ih held ((advances_tick _).isRunning runs)
    exact before.tick fun ends => before.last ends going runs

theorem going_of_none (running : d.machine.isRunning) (none : ∀ k ≤ n, ¬ d.EndsAt k) :
    Going d n (d.run.ticked n) := by
  induction n with
  | zero => exact .run running
  | succ n ih => exact (ih fun k bound => none k (by omega)).tick (none (n + 1) le_rfl)

theorem exists_clears (running : d.machine.isRunning) {k : Nat}
    (least : IsLeast {k | d.EndsAt k} k) :
    ∃ n, d.Clears n ∧ (d.run.ticked n).machine = d.machine.steps k := by
  obtain ⟨ends, first⟩ := least
  have going {j : Nat} (early : j < k) : Going d j (d.run.ticked j) := by
    refine going_of_none running fun i bound ends => ?_
    have := first ends
    omega
  obtain ⟨j, rfl⟩ : ∃ j, k = j + 1 := by cases ends <;> exact ⟨_, rfl⟩
  have last := going (Nat.lt_succ_self j)
  have machine : (d.run.ticked (j + 1)).machine = d.machine.steps (j + 1) :=
    (tick_machine last.running last.runs).trans last.behind
  cases still : (d.run.ticked (j + 1)).running with
  | false => exact ⟨j + 1, ⟨fun i early => (going early).running, still⟩, machine⟩
  | true =>
    have seen := tick_stopped still (last.last ends still)
    refine ⟨j + 2, ⟨fun i early => ?_, congrArg Debugger.running seen⟩, ?_⟩
    · rcases Nat.lt_succ_iff_lt_or_eq.1 early with early | rfl
      · exact (going early).running
      · exact still
    · exact (congrArg Debugger.machine seen).trans machine

theorem address_of_ticked (some : 1 ≤ n) {i : Nat}
    (early : (d.run.ticked n).machine.ticks + i < (d.run.ticked n).tick.machine.ticks)
    (opens : ((d.run.ticked n).machine.after i).word.contains .instructionIn) :
    ((d.run.ticked n).machine.after i).registers.address ∉ d.breakpoints := by
  have going : (d.run.ticked n).running := by
    by_contra held
    rw [tick_held (by simpa using held)] at early
    omega
  have runs : (d.run.ticked n).machine.isRunning := by
    by_contra stopped
    rw [tick_stopped going stopped] at early
    dsimp only at early
    omega
  obtain ⟨n, rfl⟩ : ∃ k, n = k + 1 := ⟨n - 1, by omega⟩
  have h := going_ticked going runs
  rw [tick_machine going runs] at early
  have rests : (d.run.ticked (n + 1)).machine = (d.machine.steps n).step.1 := h.machine
  obtain ⟨phase, queue⟩ := Machine.step_rests ((Advances.step _).isRunning (rests ▸ runs))
  rw [Machine.address_of_opening runs (rests ▸ queue) (rests ▸ phase) early opens, h.machine]
  exact fun held => h.none (n + 1) le_rfl (.breakpoint held)

theorem carryOn_of_held (held : d.running = false) (limit calls : Nat) :
    carryOn limit calls d = (calls, d) := by
  cases limit with
  | zero => rfl
  | succ limit => simp [carryOn, held]

theorem carryOn_ticked {limit calls : Nat} (going : ∀ i < n, (d.ticked i).running)
    (bound : n ≤ limit) :
    carryOn limit calls d = carryOn (limit - n) (calls + n) (d.ticked n) := by
  induction n with
  | zero => rfl
  | succ n ih =>
    rw [ih (fun i early => going i (by omega)) (by omega)]
    obtain ⟨rest, left⟩ : ∃ rest, limit - n = rest + 1 := ⟨limit - n - 1, by omega⟩
    have now : (d.ticked n).running := going n (Nat.lt_succ_self n)
    rw [left, carryOn, if_pos now, show limit - (n + 1) = rest by omega]
    rfl

theorem go_of_clears {limit : Nat} (clears : d.Clears n) (bound : n ≤ limit) :
    d.go limit = (n, d.run.ticked n) := by
  rw [go, carryOn_ticked clears.1 bound, carryOn_of_held clears.2, Nat.zero_add]

end

/-- a run of a machine that is not stopped, perhaps in the middle of an instruction, is steps up to
the first one behind which the machine has stopped, the step has failed, or the program counter is
on a breakpoint; it goes on for ever exactly if there is none, and only its first step may read an
opcode at a breakpoint. A machine that has stopped before is left alone -/
theorem run_ends_first (d : Debugger) :
    (d.machine.isRunning →
      (∀ k, IsLeast {k | d.EndsAt k} k →
        ∃ n, d.Clears n ∧ (d.run.ticked n).machine = d.machine.steps k) ∧
      ((∀ n, (d.run.ticked n).running) ↔ ∀ k, ¬ d.EndsAt k) ∧
      ∀ n ≥ 1, ∀ i, (d.run.ticked n).machine.ticks + i < (d.run.ticked n).tick.machine.ticks →
        ((d.run.ticked n).machine.after i).word.contains .instructionIn →
        ((d.run.ticked n).machine.after i).registers.address ∉ d.breakpoints) ∧
    (¬ d.machine.isRunning → d.Clears 1 ∧ (d.run.ticked 1).machine = d.machine) ∧
    ∀ n limit, d.Clears n → n ≤ limit → d.go limit = (n, d.run.ticked n) := by
  refine ⟨fun running => ⟨fun k => exists_clears running, ⟨?_, ?_⟩, ?_⟩, ?_, ?_⟩
  · intro going k ends
    classical
    have some : ∃ k, d.EndsAt k := ⟨k, ends⟩
    have least : IsLeast {k | d.EndsAt k} (Nat.find some) :=
      ⟨Nat.find_spec some, fun j ends => Nat.find_min' some ends⟩
    obtain ⟨n, ⟨-, cleared⟩, -⟩ := exists_clears running least
    rw [going n] at cleared
    cases cleared
  · exact fun none n => (going_of_none running fun k _ => none k).running
  · exact fun n some i early opens => address_of_ticked some early opens
  · intro stopped
    have seen : d.run.ticked 1 = _ := tick_stopped rfl stopped
    rw [Clears, seen]
    refine ⟨⟨fun i first => ?_, rfl⟩, rfl⟩
    obtain rfl : i = 0 := by omega
    rfl
  · exact fun n limit clears bound => go_of_clears clears bound

/-- a run that begins inside an instruction at a breakpoint and comes back to it with the second
step; and one that does not begin, since the machine has been stopped -/
theorem run_ends_first_loop :
    let image : Image := ⟨0, [.of (.loadImmediate .a) 1, .of .jump 2]⟩
    let d : Debugger := ((new image 16).addBreakpoint 2).tickOnce
    let e : Debugger := d.halt
    d.machine.isRunning ∧ d.machine.phase = .executing ∧ IsLeast {k | d.EndsAt k} 2 ∧
      (∃ n, d.Clears n ∧ (d.run.ticked n).machine = d.machine.steps 2 ∧
        d.go 9 = (n, d.run.ticked n)) ∧
      (d.machine.steps 2).isRunning ∧ (d.machine.steps 2).counter = 2 ∧
      ¬ e.machine.isRunning ∧ e.Clears 1 := by
  intro image d e
  have running : d.machine.isRunning := by decide
  have stopped : ¬ e.machine.isRunning := by decide
  have held : (d.machine.steps 2).counter = 2 := by decide +kernel
  have first : (d.machine.steps 0).step.2 = .ok (some (.loadImmediate .a)) := by decide +kernel
  have least : IsLeast {k | d.EndsAt k} 2 := by
    refine ⟨.breakpoint (by rw [held]; decide), fun k ends => ?_⟩
    by_contra early
    cases ends with
    | @stopped k stopped =>
      obtain rfl : k = 0 := by omega
      exact stopped (by decide +kernel)
    | @failed k error fails =>
      obtain rfl : k = 0 := by omega
      rw [first] at fails
      cases fails
    | @breakpoint k held =>
      obtain rfl : k = 0 := by omega
      exact absurd held (by decide +kernel)
  obtain ⟨n, clears, machine⟩ := ((run_ends_first d).1 running).1 2 least
  have few : n ≤ 9 := by
    by_contra many
    exact absurd (clears.1 2 (by omega)) (by decide +kernel)
  exact ⟨running, by decide, least, ⟨n, clears, machine, (run_ends_first d).2.2 n 9 clears few⟩,
    by decide +kernel, held, stopped, ((run_ends_first e).2.1 stopped).1⟩

end Debugger
end OneBus
