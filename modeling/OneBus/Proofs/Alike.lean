import OneBus.Machine.Run

/-!
What a tick does in terms of its one word, and when two machines tick alike. Nothing reads the
journal or the record of the last bus value, so machines that differ only there give the same
answers and stay alike. `Agree` carries a relation through the steps of a word that may fail
half-way.
-/

namespace OneBus

/-- both fail with related errors, or both succeed with related results -/
def Agree {ε ε' α β : Type} (S : ε → ε' → Prop) (R : α → β → Prop) :
    Except ε α → Except ε' β → Prop
  | .ok x, .ok y => R x y
  | .error e, .error f => S e f
  | _, _ => False

namespace Agree

variable {ε ε' α β γ α' β' : Type} {S : ε → ε' → Prop} {R : α → β → Prop} {Q : α' → β' → Prop}

theorem cases {x : Except ε α} {y : Except ε' β} (h : Agree S R x y) :
    (∃ e e', x = .error e ∧ y = .error e' ∧ S e e') ∨ ∃ a b, x = .ok a ∧ y = .ok b ∧ R a b := by
  cases x <;> cases y
  · exact .inl ⟨_, _, rfl, rfl, h⟩
  · exact h.elim
  · exact h.elim
  · exact .inr ⟨_, _, rfl, rfl, h⟩

theorem bind {x : Except ε α} {y : Except ε' β} {f : α → Except ε α'} {g : β → Except ε' β'}
    (h : Agree S R x y) (hf : ∀ a b, R a b → Agree S Q (f a) (g b)) :
    Agree S Q (x >>= f) (y >>= g) := by
  cases x <;> cases y
  · exact h
  · exact h.elim
  · exact h.elim
  · exact hf _ _ h

theorem foldlM {f : α → γ → Except ε α} {g : β → γ → Except ε' β} (l : List γ)
    (step : ∀ c ∈ l, ∀ a b, R a b → Agree S R (f a c) (g b c)) {a : α} {b : β} (h : R a b) :
    Agree S R (l.foldlM f a) (l.foldlM g b) := by
  induction l generalizing a b with
  | nil => exact h
  | cons c l ih =>
    rw [List.foldlM_cons, List.foldlM_cons]
    exact (step c List.mem_cons_self a b h).bind fun a b h =>
      ih (fun c hc => step c (List.mem_cons_of_mem _ hc)) h

end Agree

namespace Machine

variable {δ : Type}

/-- the word that the next tick asserts -/
def word (m : Machine δ) : ControlWord := m.pending.headD .empty

/-- the machine as it goes into that word -/
def begun (m : Machine δ) : Machine δ := { m with queue := m.pending.tail, phase := .executing }

/-- the machine without its journal and without the record of the last bus value -/
def bare (m : Machine δ) : Machine δ := { m with lastBus := 0, journal := #[] }

def Alike (m n : Machine δ) : Prop := m.bare = n.bare

/-- the machines agree but for their journals, and so do the answers -/
def SameEnd {β : Type} (x y : Machine δ × β) : Prop := Alike x.1 y.1 ∧ x.2 = y.2

theorem Alike.exists_eq {m n : Machine δ} (h : Alike m n) :
    ∃ bus journal, n = { m with lastBus := bus, journal } := by
  refine ⟨n.lastBus, n.journal, ?_⟩
  cases m; cases n
  simp_all [Alike, bare]

theorem alike_note (m : Machine δ) (e : Event) : Alike (m.note e) m := rfl

theorem SameEnd.trans {β : Type} {x y z : Machine δ × β} (h : SameEnd x y) (k : SameEnd y z) :
    SameEnd x z :=
  ⟨Eq.trans h.1 k.1, h.2.trans k.2⟩

end Machine

def Failure.Alike {δ : Type} (f g : Failure δ) : Prop :=
  f.machine.Alike g.machine ∧ f.error = g.error

namespace Machine

variable {δ : Type} [Peripheral δ]

/-- what a tick makes of the outcome of its word -/
def conclude (w : ControlWord) :
    Except (Failure δ) (Machine δ) → Machine δ × Except MachineError TickReport
  | .ok n => (n.settle, .ok ⟨w, if w.contains .instructionIn then n.current else none, n.bus⟩)
  | .error f => (f.machine.settle.fault f.error, .error f.error)

theorem tick_running {m : Machine δ} (running : m.isRunning) :
    m.tick = conclude m.word ((m.begun.note (.tick m.ticks m.word)).assert m.word) := by
  unfold tick
  rw [if_pos running]
  unfold conclude
  rfl

theorem tick_stopped {m : Machine δ} (stopped : ¬ m.isRunning) :
    m.tick = (m, .error (.notRunning m.condition)) := by
  unfold tick
  rw [if_neg stopped]

theorem Alike.drive {m n : Machine δ} (h : Alike m n) (s : Signal) :
    Agree Failure.Alike Alike (m.drive s) (n.drive s) := by
  obtain ⟨bus, journal, rfl⟩ := h.exists_eq
  cases s with
  | memoryOut =>
    simp only [Machine.drive]
    cases m.memory.read m.registers.address
    · exact ⟨rfl, rfl⟩
    · exact rfl
  | peripheralOut =>
    simp only [Machine.drive]
    cases m.ports.drive m.registers.b
    · exact ⟨rfl, rfl⟩
    · exact rfl
  | _ => exact rfl

theorem Alike.latch {m n : Machine δ} (h : Alike m n) (a : Word) (s : Signal) :
    Agree Failure.Alike Alike (m.latch a s) (n.latch a s) := by
  obtain ⟨bus, journal, rfl⟩ := h.exists_eq
  cases s with
  | memoryIn =>
    simp only [Machine.latch]
    cases m.memory.write a m.bus
    · exact ⟨rfl, rfl⟩
    · exact rfl
  | peripheralIn =>
    simp only [Machine.latch]
    cases m.ports.write a m.bus
    · exact ⟨rfl, rfl⟩
    · exact rfl
  | instructionIn =>
    simp only [Machine.latch, decode, latchRegister]
    cases Opcode.ofId? (m.registers.set .instruction m.bus).instruction
    · exact ⟨rfl, rfl⟩
    · exact rfl
  | _ => exact rfl

theorem Alike.finish {m n : Machine δ} (h : Alike m n) (w : ControlWord) :
    Alike (m.finish w) (n.finish w) := by
  obtain ⟨bus, journal, rfl⟩ := h.exists_eq
  unfold Machine.finish
  cases w.contains .programCounterIncrement <;> cases w.contains .halt <;> exact rfl

theorem Alike.assert {m n : Machine δ} (h : Alike m n) (w : ControlWord) :
    Agree Failure.Alike Alike (m.assert w) (n.assert w) := by
  have address : n.registers.address = m.registers.address := by
    obtain ⟨bus, journal, rfl⟩ := h.exists_eq
    rfl
  unfold Machine.assert
  rw [address]
  refine (Agree.foldlM _ (fun s _ _ _ h => h.drive s) h).bind fun m n h => ?_
  refine (Agree.foldlM _ (fun s _ _ _ h => h.latch _ s) h).bind fun m n h => ?_
  exact h.finish w

theorem SameEnd.conclude {x y : Except (Failure δ) (Machine δ)} (w : ControlWord)
    (h : Agree Failure.Alike Alike x y) : SameEnd (conclude w x) (conclude w y) := by
  cases x <;> cases y
  · obtain ⟨alike, same⟩ := h
    obtain ⟨bus, journal, eq⟩ := alike.exists_eq
    simp only [Machine.conclude, same, eq]
    exact ⟨rfl, rfl⟩
  · exact h.elim
  · exact h.elim
  · obtain ⟨bus, journal, rfl⟩ := Alike.exists_eq h
    exact ⟨rfl, rfl⟩

theorem sameEnd_tick {m : Machine δ} (running : m.isRunning) :
    SameEnd m.tick (conclude m.word (m.begun.assert m.word)) := by
  rw [tick_running running]
  exact SameEnd.conclude _ ((alike_note ..).assert _)

theorem Alike.tick {m n : Machine δ} (h : Alike m n) : SameEnd m.tick n.tick := by
  obtain ⟨bus, journal, eq⟩ := h.exists_eq
  have same : n.isRunning = m.isRunning := by rw [eq]; rfl
  by_cases running : m.isRunning
  · rw [tick_running running, tick_running (same.trans running)]
    have word : n.word = m.word := by rw [eq]; rfl
    rw [word]
    refine SameEnd.conclude _ (Alike.assert ?_ _)
    rw [eq]
    exact rfl
  · rw [tick_stopped running, tick_stopped (same ▸ running)]
    exact ⟨h, by rw [eq]⟩

/-- how a step goes on from a tick, with so many more to come -/
def goOn (bound : Nat) (last : Option Opcode) :
    Machine δ × Except MachineError TickReport → Machine δ × Except MachineError (Option Opcode)
  | (n, .ok report) =>
    let last := report.decoded <|> last
    if n.phase = .idle ∨ ¬ n.isRunning then (n, .ok last) else stepWithin bound last n
  | (n, .error e) => (n, .error e)

theorem stepWithin_succ (bound : Nat) (last : Option Opcode) (m : Machine δ) :
    stepWithin (bound + 1) last m = goOn bound last m.tick := by
  rw [stepWithin]
  unfold goOn
  rfl

theorem SameEnd.goOn_of {bound : Nat}
    (step : ∀ (m n : Machine δ) (last : Option Opcode), Alike m n →
      SameEnd (stepWithin bound last m) (stepWithin bound last n))
    {x y : Machine δ × Except MachineError TickReport} (h : SameEnd x y) (last : Option Opcode) :
    SameEnd (goOn bound last x) (goOn bound last y) := by
  obtain ⟨m, result⟩ := x
  obtain ⟨n, _⟩ := y
  obtain ⟨alike, same⟩ := h
  cases same
  cases result with
  | error e => exact ⟨alike, rfl⟩
  | ok report =>
    obtain ⟨bus, journal, rfl⟩ := alike.exists_eq
    unfold goOn
    dsimp only
    split
    · rw [if_pos ‹_›]
      exact ⟨alike, rfl⟩
    · rw [if_neg ‹_›]
      exact step _ _ _ alike

theorem Alike.stepWithin {m n : Machine δ} (h : Alike m n) (bound : Nat) (last : Option Opcode) :
    SameEnd (stepWithin bound last m) (stepWithin bound last n) := by
  induction bound generalizing m n last with
  | zero => exact ⟨h, rfl⟩
  | succ bound ih =>
    rw [stepWithin_succ, stepWithin_succ]
    exact SameEnd.goOn_of (fun _ _ last h => ih h last) h.tick last

theorem SameEnd.goOn {x y : Machine δ × Except MachineError TickReport} (h : SameEnd x y)
    (bound : Nat) (last : Option Opcode) : SameEnd (goOn bound last x) (goOn bound last y) :=
  SameEnd.goOn_of (fun _ _ last h => h.stepWithin _ last) h last

section

variable {m n done : Machine δ} (w : ControlWord) (rest : List ControlWord)

theorem sameEnd_tick_cons (running : m.isRunning) (pending : m.pending = w :: rest) :
    SameEnd m.tick (conclude w ({ m with queue := rest, phase := .executing }.assert w)) := by
  have := sameEnd_tick running
  simpa only [word, begun, pending, List.headD_cons, List.tail_cons] using this

theorem stepWithin_word (bound : Nat) (last : Option Opcode) (running : m.isRunning)
    (pending : m.pending = w :: rest) :
    SameEnd (stepWithin (bound + 1) last m)
      (goOn bound last (conclude w ({ m with queue := rest, phase := .executing }.assert w))) := by
  rw [stepWithin_succ]
  exact (sameEnd_tick_cons w rest running pending).goOn _ _

/-- a word inside a step, with `n` for the machine behind it -/
theorem stepWithin_more (bound : Nat) (last : Option Opcode) (running : m.isRunning)
    (pending : m.pending = w :: rest)
    (assertion : { m with queue := rest, phase := .executing }.assert w = .ok done)
    (next : Alike done.settle n) (phase : n.phase = .executing) (runs : n.isRunning) :
    SameEnd (stepWithin (bound + 1) last m)
      (stepWithin bound (if w.contains .instructionIn then n.current <|> last else last) n) := by
  refine (stepWithin_word w _ bound last running pending).trans ?_
  rw [assertion]
  obtain ⟨bus, journal, eq⟩ := next.exists_eq
  have current : done.current = n.current := by rw [eq]; rfl
  have same : SameEnd (conclude w (.ok done))
      (n, .ok ⟨w, if w.contains .instructionIn then n.current else none, done.bus⟩) :=
    ⟨next, by rw [conclude, current]⟩
  refine (same.goOn bound last).trans ?_
  have going : ¬ (n.phase = .idle ∨ ¬ n.isRunning) := by simp [phase, runs]
  unfold goOn
  dsimp only
  rw [if_neg going]
  cases w.contains .instructionIn <;> exact ⟨rfl, rfl⟩

theorem stepWithin_plain (bound : Nat) (last : Option Opcode) (running : m.isRunning)
    (pending : m.pending = w :: rest) (plain : w.contains .instructionIn = false)
    (assertion : { m with queue := rest, phase := .executing }.assert w = .ok done)
    (next : Alike done.settle n) (phase : n.phase = .executing) (runs : n.isRunning) :
    SameEnd (stepWithin (bound + 1) last m) (stepWithin bound last n) := by
  have := stepWithin_more w rest bound last running pending assertion next phase runs
  rwa [plain] at this

theorem stepWithin_last (bound : Nat) (last : Option Opcode) (running : m.isRunning)
    (pending : m.pending = [w]) (plain : w.contains .instructionIn = false)
    (assertion : { m with queue := [], phase := .executing }.assert w = .ok done)
    (next : Alike done.settle n) (phase : n.phase = .idle) :
    SameEnd (stepWithin (bound + 1) last m) (n, .ok last) := by
  refine (stepWithin_word w _ bound last running pending).trans ?_
  rw [assertion]
  obtain ⟨bus, journal, eq⟩ := next.exists_eq
  have idle : done.settle.phase = .idle := by rw [eq] at phase; exact phase
  unfold goOn conclude
  dsimp only
  rw [if_pos (.inl idle), plain]
  exact ⟨next, rfl⟩

theorem stepWithin_fault (bound : Nat) (last : Option Opcode) {e : MachineError}
    (running : m.isRunning) (pending : m.pending = w :: rest)
    (assertion : { m with queue := rest, phase := .executing }.assert w = .error ⟨done, e⟩)
    (next : Alike (done.settle.fault e) n) :
    SameEnd (stepWithin (bound + 1) last m) (n, .error e) := by
  refine (stepWithin_word w _ bound last running pending).trans ?_
  rw [assertion]
  exact ⟨next, rfl⟩

end

end Machine
end OneBus
