import OneBus.Proofs.Sequencer

/-!
What can be done to a machine from outside, and how a property is kept by it. A word may end
half-way, so `Ends` says what holds behind it and what where it failed. A property that drivers and
latches keep within a word is kept by ticks, `tick_rule`, and since steps and runs are ticks one
after another, by every action that is not a change of its own.
-/

namespace OneBus
namespace Machine

variable {δ : Type}

/-- a part of a word that ends in `P`, or fails in `Q` -/
def Ends (P Q : Machine δ → Prop) : Except (Failure δ) (Machine δ) → Prop
  | .ok m => P m
  | .error f => Q f.machine

namespace Ends

variable {P P' Q : Machine δ → Prop}

theorem bind {x : Except (Failure δ) (Machine δ)} {f : Machine δ → Except (Failure δ) (Machine δ)}
    (h : Ends P Q x) (next : ∀ m, P m → Ends P' Q (f m)) : Ends P' Q (x >>= f) := by
  cases x with
  | ok m => exact next m h
  | error _ => exact h

theorem imp {Q' : Machine δ → Prop} {x : Except (Failure δ) (Machine δ)} (h : Ends P Q x)
    (ok : ∀ m, P m → P' m) (error : ∀ m, Q m → Q' m) : Ends P' Q' x := by
  cases x with
  | ok m => exact ok m h
  | error f => exact error f.machine h

theorem foldlM_mem {γ : Type} {f : Machine δ → γ → Except (Failure δ) (Machine δ)} (l : List γ)
    (step : ∀ m, ∀ c ∈ l, P m → Ends P Q (f m c)) {m : Machine δ} (h : P m) :
    Ends P Q (l.foldlM f m) := by
  induction l generalizing m with
  | nil => exact h
  | cons c l ih =>
    rw [List.foldlM_cons]
    exact (step m c List.mem_cons_self h).bind fun n h =>
      ih (fun m c mem => step m c (List.mem_cons_of_mem _ mem)) h

theorem foldlM {γ : Type} {f : Machine δ → γ → Except (Failure δ) (Machine δ)} (l : List γ)
    (step : ∀ m c, P m → Ends P Q (f m c)) {m : Machine δ} (h : P m) : Ends P Q (l.foldlM f m) :=
  foldlM_mem l (fun m c _ => step m c) h

end Ends

variable [Peripheral δ]

theorem Ends.drive {Q : Machine δ → Prop} {m : Machine δ} (s : Signal)
    (seen : ∀ bus, Q { m with bus })
    (answered : ∀ bus ports, s = .peripheralOut →
      m.ports.drive m.registers.b = .ok (bus, ports) → Q { m with bus, ports }) :
    Ends Q Q (m.drive s) := by
  cases s with
  | memoryOut =>
    simp only [Machine.drive]
    cases m.memory.read m.registers.address <;> exact seen _
  | peripheralOut =>
    simp only [Machine.drive]
    cases drive : m.ports.drive m.registers.b with
    | ok answer => exact answered _ _ rfl drive
    | error e => exact seen m.bus
  | _ => exact seen _

theorem Ends.latch {Q : Machine δ → Prop} {m : Machine δ} (a : Word) (s : Signal) (kept : Q m)
    (written : ∀ memory, m.memory.write a m.bus = .ok memory → Q { m with memory })
    (sent : ∀ ports notes, s = .peripheralIn → m.ports.write a m.bus = .ok (ports, notes) →
      Q { m with ports, journal := m.journal ++ notes.map Event.remark })
    (taken : ∀ r, s.latches = some r → Q (m.latchRegister r))
    (decoded : ∀ op e, s = .instructionIn → Q { (m.latchRegister .instruction).note e with
      queue := m.queue ++ op.microprogram.words
      operation := op.microprogram.operation
      current := some op
      instructions := m.instructions + 1 }) : Ends Q Q (m.latch a s) := by
  cases s with
  | memoryIn =>
    simp only [Machine.latch]
    cases write : m.memory.write a m.bus with
    | ok memory => exact written memory write
    | error e => exact kept
  | peripheralIn =>
    simp only [Machine.latch]
    cases write : m.ports.write a m.bus with
    | ok answer => exact sent _ _ rfl write
    | error e => exact kept
  | instructionIn =>
    simp only [Machine.latch, decode]
    cases Opcode.ofId? (m.latchRegister .instruction).registers.instruction with
    | some op => exact decoded op _ rfl
    | none => exact taken .instruction rfl
  | _ => first | exact kept | exact taken _ rfl

/-- a word: `Q` while its lines take effect, and `R` behind it -/
theorem assert_ends {Q R : Machine δ → Prop} {m : Machine δ} (w : ControlWord) (start : Q m)
    (drive : ∀ n s, w.contains s → Q n → Ends Q Q (n.drive s))
    (latch : ∀ n a s, w.contains s → Q n → Ends Q Q (n.latch a s))
    (finish : ∀ n, Q n → R (n.finish w)) : Ends R Q (m.assert w) := by
  have drivers : ∀ s ∈ w.unitDrivers ++ w.registerDrivers, w.contains s := by
    intro s mem
    rcases List.mem_append.1 mem with mem | mem <;>
      exact ControlWord.mem_toList.1 (List.mem_filter.1 mem).1
  have latchers : ∀ s ∈ w.latchers, w.contains s := fun s mem =>
    ControlWord.mem_toList.1 (List.mem_filter.1 mem).1
  refine (Ends.foldlM_mem _ (fun n s mem => drive n s (drivers s mem)) start).bind fun n h => ?_
  refine (Ends.foldlM_mem _ (fun n s mem => latch n _ s (latchers s mem)) h).bind fun n h => ?_
  exact finish n h

theorem tick_ends {Q R : Machine δ → Prop} {m : Machine δ} (running : m.isRunning)
    (start : Q (m.begun.note (.tick m.ticks m.word)))
    (drive : ∀ n s, m.word.contains s → Q n → Ends Q Q (n.drive s))
    (latch : ∀ n a s, m.word.contains s → Q n → Ends Q Q (n.latch a s))
    (finish : ∀ n, Q n → R (n.finish m.word).settle)
    (fault : ∀ n e, Q n → R (n.settle.fault e)) : R m.tick.1 := by
  have ends := assert_ends (R := fun n => R n.settle) m.word start drive latch finish
  rw [tick_running running]
  cases outcome : (m.begun.note (.tick m.ticks m.word)).assert m.word with
  | ok n =>
    rw [outcome] at ends
    exact ends
  | error f =>
    rw [outcome] at ends
    exact fault f.machine f.error ends

/-- `P` between ticks, and `Q` within them -/
theorem tick_rule {P Q : Machine δ → Prop}
    (start : ∀ m e, P m → Q (m.begun.note e)) (drive : ∀ m s, Q m → Ends Q Q (m.drive s))
    (latch : ∀ m a s, Q m → Ends Q Q (m.latch a s)) (finish : ∀ m w, Q m → P (m.finish w).settle)
    (fault : ∀ m e, Q m → P (m.settle.fault e)) {m : Machine δ} (h : P m) : P m.tick.1 := by
  by_cases running : m.isRunning
  · exact tick_ends running (start m _ h) (fun n s _ => drive n s) (fun n a s _ => latch n a s)
      (fun n => finish n m.word) fault
  · rw [tick_stopped running]
    exact h

section advance

theorem after_add (m : Machine δ) (i j : Nat) : m.after (i + j) = (m.after i).after j := by
  induction j with
  | zero => rfl
  | succ j ih => exact congrArg (·.tick.1) ih

theorem after_tick (m : Machine δ) (n : Nat) : m.tick.1.after n = m.after (n + 1) := by
  rw [Nat.add_comm, after_add]
  rfl

theorem after_keeps {P : Machine δ → Prop} (tick : ∀ n, P n → P n.tick.1) {m : Machine δ} (h : P m)
    (n : Nat) : P (m.after n) := by
  induction n with
  | zero => exact h
  | succ n ih => exact tick _ ih

theorem exists_after_stepWithin (bound : Nat) (last : Option Opcode) (m : Machine δ) :
    ∃ n, (stepWithin bound last m).1 = m.after n := by
  induction bound generalizing m last with
  | zero => exact ⟨0, rfl⟩
  | succ bound ih =>
    rw [stepWithin_succ]
    rcases ticked : m.tick with ⟨next, answer⟩
    have one : next = m.after 1 := by rw [after, after, ticked]
    cases answer with
    | error e => exact ⟨1, one⟩
    | ok report =>
      unfold goOn
      dsimp only
      split
      · exact ⟨1, one⟩
      · obtain ⟨n, rest⟩ := ih (report.decoded <|> last) next
        exact ⟨1 + n, by rw [rest, after_add, one]⟩

theorem exists_after_step (m : Machine δ) : ∃ n, m.step.1 = m.after n :=
  exists_after_stepWithin ..

theorem exists_after_issue (limited : Bool) (left issued : Nat) (m : Machine δ) :
    ∃ n, (Clock.issue (fun _ => beat) limited left issued m).2 = m.after n := by
  induction left generalizing m issued with
  | zero => exact ⟨0, rfl⟩
  | succ left ih =>
    rw [Clock.issue_succ, beat]
    rcases ticked : m.tick with ⟨next, answer⟩
    have one : next = m.after 1 := by rw [after, after, ticked]
    cases answer with
    | error e => exact ⟨1, one⟩
    | ok report =>
      dsimp only
      cases next.isRunning with
      | false => exact ⟨1, one⟩
      | true =>
        obtain ⟨n, rest⟩ := ih (issued + 1) next
        exact ⟨1 + n, by rw [after_add, ← one, ← rest]⟩

theorem exists_after_runOn (clock : Clock) (limit : Option Nat) (m : Machine δ) :
    ∃ n, (m.runOn clock limit).1 = m.after n := by
  rw [runOn, Clock.run_noWait]
  exact exists_after_issue ..

end advance

/-- a call from outside -/
inductive Action (δ : Type)
  | tick
  | step
  | run (limit : Option Nat)
  | runOn (clock : Clock) (limit : Option Nat)
  | enqueue (program : Microprogram)
  | halt
  | attach (device : δ)
  | load (image : Image)
  | poke (address value : Word)
  | setRegister (r : Register) (value : Word)

/-- the device that a call attaches -/
def Action.device? : Action δ → Option δ
  | .attach device => some device
  | _ => none

/-- the devices that calls attach, in order -/
def attached (calls : List (Action δ)) : List δ := calls.filterMap Action.device?

/-- the machine behind a call, also where the call fails -/
def act (m : Machine δ) : Action δ → Machine δ
  | .tick => m.tick.1
  | .step => m.step.1
  | .run limit => (m.run limit).1
  | .runOn clock limit => (m.runOn clock limit).1
  | .enqueue program => m.enqueue program
  | .halt => m.halt
  | .attach device => m.attach device
  | .load image => m.load image
  | .poke address value =>
    match m.poke address value with
    | .ok n => n
    | .error _ => m
  | .setRegister r value => m.setRegister r value

/-- the calls that drive a machine -/
def Action.advances : Action δ → Bool
  | .tick | .step | .run _ | .runOn _ _ => true
  | _ => false

theorem exists_after_act (m : Machine δ) {call : Action δ} (driving : call.advances) :
    ∃ n, m.act call = m.after n := by
  cases call with
  | tick => exact ⟨1, rfl⟩
  | step => exact m.exists_after_step
  | run limit => exact m.exists_after_runOn .unthrottled limit
  | runOn clock limit => exact m.exists_after_runOn clock limit
  | _ => contradiction

theorem act_keeps {P : Machine δ → Prop} (tick : ∀ n, P n → P n.tick.1) {m : Machine δ} (h : P m)
    {call : Action δ} (driving : call.advances) : P (m.act call) := by
  obtain ⟨n, eq⟩ := m.exists_after_act driving
  rw [eq]
  exact after_keeps tick h n

end Machine
end OneBus
