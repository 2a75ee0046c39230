import Mathlib.Tactic.ByContra
import OneBus.Proofs.Alike
import OneBus.Proofs.Failing

/-!
What a tick does to the part of the machine that decides which words come next. Drivers change the
bus and the ports only; of the latches, the one that decodes is alone in touching this part, and it
comes first in a word. So a tick that the machine survives takes one word from the queue and, if
the word decodes, puts the words of one opcode behind the rest: `tick_control`.
-/

namespace OneBus

/-- the line that decodes takes effect ahead of all other latches -/
theorem ControlWord.latchers_eq (w : ControlWord) :
    ∃ others, (∀ s ∈ others, s ≠ .instructionIn) ∧
      w.latchers = (if w.contains .instructionIn then [.instructionIn] else []) ++ others := by
  refine ⟨(Signal.all.tail.filter w.contains).filter (·.isLatch), ?_, ?_⟩
  · intro s hs
    have tail : ∀ s ∈ Signal.all.tail, s ≠ .instructionIn := by decide
    exact tail s (List.mem_filter.1 (List.mem_filter.1 hs).1).1
  · have all : Signal.all = .instructionIn :: Signal.all.tail := rfl
    rw [latchers, toList, all, List.filter_cons]
    cases w.contains .instructionIn <;> rfl

/-- what decides on the words to come, with the counters that go with them -/
structure Control where
  queue : List ControlWord
  operation : Operation
  phase : Phase
  condition : Condition
  current : Option Opcode
  ticks : Nat
  instructions : Nat

namespace Control

/-- behind a decoded opcode -/
def decoded (c : Control) (op : Opcode) : Control :=
  { c with
    queue := c.queue ++ op.microprogram.words
    operation := op.microprogram.operation
    current := some op
    instructions := c.instructions + 1 }

/-- behind a tick -/
def settled (c : Control) : Control :=
  { c with ticks := c.ticks + 1, phase := if c.queue.isEmpty then .idle else c.phase }

end Control

namespace Machine

variable {δ : Type}

def control (m : Machine δ) : Control :=
  ⟨m.queue, m.operation, m.phase, m.condition, m.current, m.ticks, m.instructions⟩

variable [Peripheral δ]

theorem drive_frame {m n : Machine δ} {s : Signal} (h : m.drive s = .ok n) :
    n = { m with bus := n.bus, ports := n.ports } := by
  cases s with
  | memoryOut =>
    simp only [drive] at h
    cases read : m.memory.read m.registers.address <;> rw [read] at h <;> cases h
    rfl
  | peripheralOut =>
    simp only [drive] at h
    cases answer : m.ports.drive m.registers.b <;> rw [answer] at h <;> cases h
    rfl
  | _ =>
    cases h
    rfl

theorem latch_frame {a : Word} {m n : Machine δ} {s : Signal} (plain : s ≠ .instructionIn)
    (h : m.latch a s = .ok n) :
    n = { m with
      registers := n.registers
      alu := n.alu
      memory := n.memory
      ports := n.ports
      journal := n.journal } := by
  cases s with
  | instructionIn => contradiction
  | memoryIn =>
    simp only [latch] at h
    cases write : m.memory.write a m.bus <;> rw [write] at h <;> cases h
    rfl
  | peripheralIn =>
    simp only [latch] at h
    cases write : m.ports.write a m.bus <;> rw [write] at h <;> cases h
    rfl
  | _ =>
    cases h
    rfl

theorem latch_control {a : Word} {m n : Machine δ} (h : m.latch a .instructionIn = .ok n) :
    ∃ op, n.control = m.control.decoded op := by
  simp only [latch, decode] at h
  cases known : Opcode.ofId? (m.latchRegister .instruction).registers.instruction with
  | none => rw [known] at h; cases h
  | some op => rw [known] at h; cases h; exact ⟨op, rfl⟩

theorem drivers_control {m n : Machine δ} {l : List Signal} (h : l.foldlM drive m = .ok n) :
    n.control = m.control := by
  refine foldlM_keeps (P := fun k => k.control = m.control) l ?_ rfl h
  intro s _ k k' same driven
  rw [drive_frame driven]
  exact same

theorem latchers_control {a : Word} {m n : Machine δ} {l : List Signal}
    (plain : ∀ s ∈ l, s ≠ .instructionIn) (h : l.foldlM (latch a) m = .ok n) :
    n.control = m.control := by
  refine foldlM_keeps (P := fun k => k.control = m.control) l ?_ rfl h
  intro s hs k k' same latched
  rw [latch_frame (plain s hs) latched]
  exact same

theorem finish_control {m : Machine δ} {w : ControlWord} (runs : (m.finish w).isRunning) :
    (m.finish w).control = m.control := by
  unfold finish at runs ⊢
  cases halts : w.contains .halt with
  | true =>
    rw [halts] at runs
    cases w.contains .programCounterIncrement <;> cases runs
  | false => cases w.contains .programCounterIncrement <;> rfl

theorem assert_control {m n : Machine δ} {w : ControlWord} (h : m.assert w = .ok n)
    (runs : n.isRunning) :
    if w.contains .instructionIn then ∃ op, n.control = m.control.decoded op
    else n.control = m.control := by
  obtain ⟨driven, drivers, h⟩ := exists_ok_of_bind h
  obtain ⟨latched, latchers, h⟩ := exists_ok_of_bind h
  cases h
  rw [finish_control runs]
  have same := drivers_control drivers
  obtain ⟨others, plain, eq⟩ := w.latchers_eq
  rw [eq] at latchers
  cases decodes : w.contains .instructionIn with
  | false =>
    rw [decodes] at latchers
    exact (latchers_control plain latchers).trans same
  | true =>
    rw [decodes, if_pos rfl, List.singleton_append, List.foldlM_cons] at latchers
    obtain ⟨k, first, rest⟩ := exists_ok_of_bind latchers
    obtain ⟨op, decoded⟩ := latch_control first
    exact ⟨op, by rw [latchers_control plain rest, decoded, same]⟩

/-- what a tick decodes, if it succeeds -/
def decodes? (m : Machine δ) : Option Opcode :=
  match m.tick.2 with
  | .ok report => report.decoded
  | .error _ => none

theorem isRunning_of_tick {m : Machine δ} (runs : m.tick.1.isRunning) : m.isRunning := by
  by_contra stopped
  rw [tick_stopped stopped] at runs
  exact stopped runs

theorem tick_control {m : Machine δ} (runs : m.tick.1.isRunning) :
    (∃ bus, m.tick.2 = .ok ⟨m.word, m.decodes?, bus⟩) ∧
      if m.word.contains .instructionIn then
        ∃ op, m.decodes? = some op ∧ m.tick.1.control = (m.begun.control.decoded op).settled
      else m.decodes? = none ∧ m.tick.1.control = m.begun.control.settled := by
  have running := isRunning_of_tick runs
  rw [tick_running running] at runs
  unfold decodes?
  rw [tick_running running]
  cases h : (m.begun.note (.tick m.ticks m.word)).assert m.word with
  | error f => rw [h] at runs; cases runs
  | ok n =>
    rw [h] at runs
    have control := assert_control h runs
    cases decodes : m.word.contains .instructionIn with
    | false =>
      rw [decodes] at control
      have report : (conclude m.word (.ok n)).2 = .ok ⟨m.word, none, n.bus⟩ := by
        rw [conclude, decodes]
        rfl
      rw [report]
      exact ⟨⟨n.bus, rfl⟩, rfl, congrArg Control.settled control⟩
    | true =>
      rw [decodes] at control
      obtain ⟨op, control⟩ := control
      have current : n.current = some op := congrArg Control.current control
      have report : (conclude m.word (.ok n)).2 = .ok ⟨m.word, some op, n.bus⟩ := by
        rw [conclude, decodes, current]
        rfl
      rw [report]
      exact ⟨⟨n.bus, rfl⟩, op, rfl, congrArg Control.settled control⟩

end Machine
end OneBus
