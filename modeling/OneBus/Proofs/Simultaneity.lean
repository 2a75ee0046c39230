import OneBus.Proofs.Lines

/-!
The lines of one word act at once. They take effect one after another, drivers first and then
latches, but a driver reads only what no line of the word has changed yet, and a latch reads only
the bus, so all that a tick leaves is made of values that were there before it: `AtOnce`. The word
may have any lines, several of them on the bus: the last register wins, then a device, then the
arithmetic unit, then memory. A driver that loses the bus still makes its access, and the tick
fails where one is not possible: `Serves`. The journal alone is left out, as `Comes` says.
-/

namespace OneBus

namespace Control

/-- behind an opcode, if there is one -/
def opened (c : Control) : Option Opcode → Control
  | some op => c.decoded op
  | none => c

/-- behind a halt -/
def halted (c : Control) : Control := { c with queue := [], phase := .idle, condition := .halted }

end Control

namespace Machine

variable {δ : Type}

/-- succeeds exactly under a condition, and comes to `a` then, but for the journal -/
inductive Comes (C : Prop) (a : Machine δ) : Except (Failure δ) (Machine δ) → Prop
  | ok {n : Machine δ} (can : C) (same : n = { a with journal := n.journal }) : Comes C a (.ok n)
  | error {e : Failure δ} (cannot : ¬ C) : Comes C a (.error e)

namespace Comes

variable {C D : Prop} {a b : Machine δ} {x : Except (Failure δ) (Machine δ)}
  {f : Machine δ → Except (Failure δ) (Machine δ)}

theorem bind (h : Comes C a x)
    (next : ∀ journal, Comes D { b with journal } (f { a with journal })) :
    Comes (C ∧ D) b (x >>= f) := by
  cases h with
  | error cannot => exact .error fun both => cannot both.1
  | @ok n can same =>
    have rest := next n.journal
    rw [← same] at rest
    change Comes (C ∧ D) b (f n)
    generalize f n = y at rest
    cases rest with
    | error cannot => exact .error fun both => cannot both.2
    | ok able same => exact .ok ⟨can, able⟩ same

theorem next (h : Comes C a x)
    (rest : ∀ journal, ∃ journal', f { a with journal } = .ok { b with journal := journal' }) :
    Comes C b (x >>= f) := by
  have both := h.bind (D := True) (b := b) (f := f) fun journal => by
    obtain ⟨journal', rest⟩ := rest journal
    rw [rest]
    exact .ok trivial rfl
  rwa [and_true] at both

theorem congr (h : Comes C a x) (same : C ↔ D) : Comes D a x := propext same ▸ h

end Comes

/-- the registers of a set take the bus, and the arithmetic unit follows -/
def takeAll (m : Machine δ) (p : Register → Bool) : Machine δ :=
  let registers := m.registers.latched p m.bus
  { m with registers, alu := if p .a || p .b then ⟨registers.a, registers.b⟩ else m.alu }

theorem takeAll_none (m : Machine δ) : m.takeAll (fun _ => false) = m := by
  rw [takeAll, RegisterBank.latched_none]
  rfl

theorem takeAll_takeAll (m : Machine δ) (p q : Register → Bool) :
    (m.takeAll p).takeAll q = m.takeAll fun r => p r || q r := by
  have registers := m.registers.latched_latched p q m.bus
  have alu : (if q .a || q .b then
      (⟨(m.registers.latched (fun r => p r || q r) m.bus).a,
        (m.registers.latched (fun r => p r || q r) m.bus).b⟩ : Alu)
      else if p .a || p .b then
        ⟨(m.registers.latched p m.bus).a, (m.registers.latched p m.bus).b⟩ else m.alu) =
      if (p .a || q .a) || (p .b || q .b) then
        ⟨(m.registers.latched (fun r => p r || q r) m.bus).a,
          (m.registers.latched (fun r => p r || q r) m.bus).b⟩ else m.alu := by
    simp only [RegisterBank.latched]
    by_cases pa : p .a <;> by_cases pb : p .b <;> by_cases qa : q .a <;> by_cases qb : q .b <;>
      simp only [pa, pb, qa, qb, Bool.or_true, Bool.or_false, if_true, if_false, Bool.false_eq_true]
  simp only [takeAll, registers, alu]

theorem latchRegister_eq (m : Machine δ) (r : Register) :
    m.latchRegister r = m.takeAll (· = r) := by
  have bank := m.registers.set_eq_latched r m.bus
  simp only [latchRegister, takeAll, bank]
  cases r <;> rfl

/-- the machine with an opcode decoded, if there is one -/
def expanded (m : Machine δ) (op? : Option Opcode) : Machine δ :=
  let c := m.control.opened op?
  { m with
    queue := c.queue
    operation := c.operation
    phase := c.phase
    condition := c.condition
    current := c.current
    ticks := c.ticks
    instructions := c.instructions }

theorem takeAll_expanded (m : Machine δ) (p : Register → Bool) (op? : Option Opcode) :
    (m.expanded op?).takeAll p = (m.takeAll p).expanded op? := by
  cases op? <;> rfl

variable [Peripheral δ]

/-- what the cell at `Address` holds -/
def recalled (m : Machine δ) : Word :=
  match m.memory.read m.registers.address with
  | .ok v => v
  | .error _ => 0

/-- what the device on the port that `B` selects puts on the bus -/
def answer (m : Machine δ) : Word :=
  match m.ports.select? m.registers.b with
  | some (_, port) => (Peripheral.drive port.device).1
  | none => 0

/-- the bus while a word is asserted -/
def carried (m : Machine δ) (w : ControlWord) : Word :=
  match w.source? with
  | some r => m.registers.get r
  | none =>
    if w.contains .peripheralOut then m.answer
    else if w.contains .aluEnable then m.alu.result m.operation
    else if w.contains .memoryOut then m.recalled
    else 0

/-- the opcode that a word decodes -/
def opens? (m : Machine δ) (w : ControlWord) : Option Opcode :=
  if w.contains .instructionIn then Opcode.ofId? (m.carried w) else none

/-- every access of a word is possible, also that of a driver that loses the bus -/
structure Serves (m : Machine δ) (w : ControlWord) : Prop where
  read : w.contains .memoryOut → ∃ v, m.memory.read m.registers.address = .ok v
  ask : w.contains .peripheralOut → ∃ port, m.ports.select? m.registers.b = some port
  decode : w.contains .instructionIn → ∃ op, Opcode.ofId? (m.carried w) = some op
  write : w.contains .memoryIn → ∃ i, m.memory.cell? m.registers.address = some i
  send : w.contains .peripheralIn → ∃ port, m.ports.select? m.registers.address = some port

/-- a device is asked for a value -/
def asked (m : Machine δ) (w : ControlWord) : List Transfer :=
  if w.contains .peripheralOut then [.driven m.registers.b.toNat m.answer] else []

/-- a device gets the bus -/
def sent (m : Machine δ) (w : ControlWord) : List Transfer :=
  if w.contains .peripheralIn then [.written m.registers.address.toNat (m.carried w)] else []

/-- the transfers of a word -/
def transfers (m : Machine δ) (w : ControlWord) : List Transfer :=
  m.asked w ++ m.sent w ++
    if w.contains .halt then (List.range m.ports.length).map .disconnected else []

/-- the machine behind the latches of a word -/
def latched (m : Machine δ) (w : ControlWord) : Machine δ :=
  { ({ m with bus := m.carried w }.takeAll w.takes).expanded (m.opens? w) with
    memory :=
      if w.contains .memoryIn then m.memory.put m.registers.address (m.carried w) else m.memory
    ports := (m.ports.reached (m.asked w)).reached (m.sent w) }

theorem comes_memoryOut (m : Machine δ) (w : ControlWord) :
    Comes (w.contains .memoryOut → ∃ v, m.memory.read m.registers.address = .ok v)
      { m with bus := if w.contains .memoryOut then m.recalled else m.bus }
      (if w.contains .memoryOut then m.drive .memoryOut else pure m) := by
  cases w.contains .memoryOut with
  | false => exact .ok (by simp) rfl
  | true =>
    simp only [drive, recalled, if_true]
    cases read : m.memory.read m.registers.address with
    | ok v => exact .ok (fun _ => ⟨v, rfl⟩) rfl
    | error e => exact .error (by simp)

theorem drive_aluEnable (m : Machine δ) (w : ControlWord) :
    (if w.contains .aluEnable then m.drive .aluEnable else pure m) =
      .ok { m with bus := if w.contains .aluEnable then m.alu.result m.operation else m.bus } := by
  cases w.contains .aluEnable <;> rfl

theorem comes_peripheralOut (m : Machine δ) (w : ControlWord) :
    Comes (w.contains .peripheralOut → ∃ port, m.ports.select? m.registers.b = some port)
      { m with
        bus := if w.contains .peripheralOut then m.answer else m.bus
        ports := m.ports.reached (m.asked w) }
      (if w.contains .peripheralOut then m.drive .peripheralOut else pure m) := by
  rw [asked]
  cases w.contains .peripheralOut with
  | false =>
    simp only [Bool.false_eq_true, if_false, PortTable.reached_nil]
    exact .ok (by simp) rfl
  | true =>
    simp only [drive, answer, if_true]
    cases select : m.ports.select? m.registers.b with
    | none =>
      rw [PortTable.drive_error select]
      exact .error (by simp)
    | some found =>
      obtain ⟨i, port⟩ := found
      obtain ⟨selects, there⟩ := PortTable.select?_eq_some_iff.1 select
      have place := (Word.index?_eq_some_iff.1 selects).2
      have driven : m.ports.drive m.registers.b = .ok ((Peripheral.drive port.device).1,
          m.ports.record port (.driven i (Peripheral.drive port.device).1)) := by
        rw [PortTable.drive, select]
        rfl
      rw [driven, place, PortTable.record_eq_reached there]
      exact .ok (fun _ => ⟨_, rfl⟩) rfl

/-- the last register wins the bus -/
theorem foldlM_drive_registers (rs : List Register) (m : Machine δ) :
    (rs.map Register.outLine).foldlM drive m =
      .ok { m with bus := (rs.getLast?.map m.registers.get).getD m.bus } := by
  induction rs generalizing m with
  | nil => rfl
  | cons r rs ih =>
    rw [List.map_cons, List.foldlM_cons, drive_register r.drives_outLine]
    refine (ih _).trans ?_
    rw [List.getLast?_cons]
    cases rs.getLast? <;> rfl

/-- a device drives the bus over the arithmetic unit, and a register over both -/
theorem comes_overriding (m : Machine δ) (w : ControlWord) :
    Comes (w.contains .peripheralOut → ∃ port, m.ports.select? m.registers.b = some port)
      { m with
        bus := (w.source?.map m.registers.get).getD
          (if w.contains .peripheralOut then m.answer
            else if w.contains .aluEnable then m.alu.result m.operation else m.bus)
        ports := m.ports.reached (m.asked w) }
      ((if w.contains .aluEnable then m.drive .aluEnable else pure m) >>= fun n =>
        (if w.contains .peripheralOut then n.drive .peripheralOut else pure n) >>= fun n =>
          w.registerDrivers.foldlM drive n) := by
  rw [drive_aluEnable, w.registerDrivers_eq]
  refine (comes_peripheralOut { m with
    bus := if w.contains .aluEnable then m.alu.result m.operation else m.bus } w).next
    fun journal => ⟨journal, ?_⟩
  exact foldlM_drive_registers _ _

theorem comes_drivers {m : Machine δ} (quiet : m.bus = 0) (w : ControlWord) :
    Comes ((w.contains .memoryOut → ∃ v, m.memory.read m.registers.address = .ok v) ∧
        (w.contains .peripheralOut → ∃ port, m.ports.select? m.registers.b = some port))
      { m with
        bus := m.carried w
        ports := m.ports.reached (m.asked w) }
      ((w.unitDrivers ++ w.registerDrivers).foldlM drive m) := by
  have bus : m.carried w = (w.source?.map m.registers.get).getD
      (if w.contains .peripheralOut then m.answer
        else if w.contains .aluEnable then m.alu.result m.operation
        else if w.contains .memoryOut then m.recalled else m.bus) := by
    rw [carried, quiet]
    cases w.source? <;> rfl
  rw [w.unitDrivers_eq, List.foldlM_append, List.foldlM_filter, bus]
  simp only [List.foldlM_cons, List.foldlM_nil, bind_pure, bind_assoc]
  exact (comes_memoryOut m w).bind fun journal => comes_overriding { m with
    bus := if w.contains .memoryOut then m.recalled else m.bus, journal } w

theorem foldlM_latch_registers (a : Word) {l : List Signal}
    (plain : ∀ s ∈ l, s ≠ .instructionIn ∧ s.latches.isSome) (m : Machine δ) :
    l.foldlM (latch a) m = .ok (m.takeAll fun r => l.any fun s => s.latches = some r) := by
  induction l generalizing m with
  | nil => exact congrArg Except.ok m.takeAll_none.symm
  | cons s l ih =>
    obtain ⟨⟨other, some⟩, plain⟩ := List.forall_mem_cons.1 plain
    obtain ⟨r, latches⟩ := Option.isSome_iff_exists.1 some
    rw [List.foldlM_cons, latch_register latches other, latchRegister_eq]
    refine (ih plain _).trans ?_
    rw [takeAll_takeAll]
    simp only [List.any_cons, latches, Option.some.injEq, eq_comm]

theorem comes_instructionIn (m : Machine δ) (w : ControlWord) (a : Word) :
    Comes (w.contains .instructionIn → ∃ op, Opcode.ofId? m.bus = some op)
      ((m.takeAll fun r => w.contains .instructionIn && decide (r = .instruction)).expanded
        (if w.contains .instructionIn then Opcode.ofId? m.bus else none))
      (if w.contains .instructionIn then m.latch a .instructionIn else pure m) := by
  cases w.contains .instructionIn with
  | false => exact .ok (by simp) m.takeAll_none.symm
  | true =>
    simp only [if_true, Bool.true_and, latch, latchRegister_eq]
    have opcode : (m.takeAll (· = .instruction)).registers.instruction = m.bus := rfl
    cases known : Opcode.ofId? m.bus with
    | some op =>
      rw [decode_known op (opcode ▸ known)]
      exact .ok (fun _ => ⟨op, rfl⟩) rfl
    | none =>
      rw [decode_unknown (opcode ▸ known)]
      exact .error (by simp)

theorem comes_taking (m : Machine δ) (w : ControlWord) (a : Word) :
    Comes (w.contains .instructionIn → ∃ op, Opcode.ofId? m.bus = some op)
      ((m.takeAll w.takes).expanded
        (if w.contains .instructionIn then Opcode.ofId? m.bus else none))
      ((if w.contains .instructionIn then m.latch a .instructionIn else pure m) >>=
        (ControlWord.plainLatches.filter w.contains).foldlM (latch a)) := by
  refine (comes_instructionIn m w a).next fun journal => ⟨journal, ?_⟩
  have plain : ∀ s ∈ ControlWord.plainLatches, s ≠ .instructionIn ∧ s.latches.isSome := by decide
  rw [foldlM_latch_registers a fun s mem => plain s (List.mem_filter.1 mem).1]
  have taken := takeAll_expanded
    (m.takeAll fun r => w.contains .instructionIn && decide (r = .instruction))
    (fun r => (ControlWord.plainLatches.filter w.contains).any fun s => s.latches = some r)
    (if w.contains .instructionIn then Opcode.ofId? m.bus else none)
  rw [takeAll_takeAll, ← w.takes_eq] at taken
  exact congrArg (fun n : Machine δ => Except.ok { n with journal }) taken

theorem comes_memoryIn (m : Machine δ) (w : ControlWord) (a : Word) :
    Comes (w.contains .memoryIn → ∃ i, m.memory.cell? a = some i)
      { m with memory := if w.contains .memoryIn then m.memory.put a m.bus else m.memory }
      (if w.contains .memoryIn then m.latch a .memoryIn else pure m) := by
  cases w.contains .memoryIn with
  | false => exact .ok (by simp) rfl
  | true =>
    simp only [latch, Memory.write, if_true]
    cases cell : m.memory.cell? a with
    | none => exact .error (by simp)
    | some i =>
      have place := (Word.index?_eq_some_iff.1 (Memory.cell?_eq_some_iff.1 cell).1).2
      rw [← place]
      exact .ok (fun _ => ⟨_, rfl⟩) rfl

theorem comes_peripheralIn (m : Machine δ) (w : ControlWord) (a : Word) :
    Comes (w.contains .peripheralIn → ∃ port, m.ports.select? a = some port)
      { m with
        ports := m.ports.reached
          (if w.contains .peripheralIn then [.written a.toNat m.bus] else []) }
      (if w.contains .peripheralIn then m.latch a .peripheralIn else pure m) := by
  cases w.contains .peripheralIn with
  | false =>
    simp only [Bool.false_eq_true, if_false, PortTable.reached_nil]
    exact .ok (by simp) rfl
  | true =>
    simp only [latch, if_true]
    cases select : m.ports.select? a with
    | none =>
      rw [PortTable.write_error select]
      exact .error (by simp)
    | some found =>
      obtain ⟨i, port⟩ := found
      obtain ⟨selects, there⟩ := PortTable.select?_eq_some_iff.1 select
      obtain ⟨notes, written⟩ := PortTable.write_of_select select m.bus
      have place := (Word.index?_eq_some_iff.1 selects).2
      have reached : m.ports.record port (.written i m.bus) = m.ports.reached [.written i m.bus] :=
        PortTable.record_eq_reached there
      rw [written, place, reached]
      exact .ok (fun _ => ⟨_, rfl⟩) rfl

theorem comes_sending (m : Machine δ) (w : ControlWord) (a : Word) :
    Comes ((w.contains .memoryIn → ∃ i, m.memory.cell? a = some i) ∧
        (w.contains .peripheralIn → ∃ port, m.ports.select? a = some port))
      { m with
        memory := if w.contains .memoryIn then m.memory.put a m.bus else m.memory
        ports := m.ports.reached
          (if w.contains .peripheralIn then [.written a.toNat m.bus] else []) }
      (([.flagsIn, .memoryIn, .peripheralIn].filter w.contains).foldlM (latch a) m) := by
  have flags : (if w.contains .flagsIn then m.latch a .flagsIn else pure m) = .ok m := by
    cases w.contains .flagsIn <;> rfl
  simp only [List.foldlM_filter, List.foldlM_cons, List.foldlM_nil, bind_pure, flags]
  exact (comes_memoryIn m w a).bind fun journal => comes_peripheralIn { m with
    memory := if w.contains .memoryIn then m.memory.put a m.bus else m.memory, journal } w a

theorem comes_latchers (m : Machine δ) (w : ControlWord) (a : Word) :
    Comes ((w.contains .instructionIn → ∃ op, Opcode.ofId? m.bus = some op) ∧
        (w.contains .memoryIn → ∃ i, m.memory.cell? a = some i) ∧
          (w.contains .peripheralIn → ∃ port, m.ports.select? a = some port))
      { (m.takeAll w.takes).expanded
          (if w.contains .instructionIn then Opcode.ofId? m.bus else none) with
        memory := if w.contains .memoryIn then m.memory.put a m.bus else m.memory
        ports := m.ports.reached
          (if w.contains .peripheralIn then [.written a.toNat m.bus] else []) }
      (w.latchers.foldlM (latch a) m) := by
  have decoding : ([.instructionIn].filter w.contains).foldlM (latch a) m =
      if w.contains .instructionIn then m.latch a .instructionIn else pure m := by
    simp only [List.foldlM_filter, List.foldlM_cons, List.foldlM_nil, bind_pure]
  rw [w.latchers_eq_append, List.foldlM_append, List.foldlM_append, decoding]
  exact (comes_taking m w a).bind fun journal => comes_sending { (m.takeAll w.takes).expanded
    (if w.contains .instructionIn then Opcode.ofId? m.bus else none) with journal } w a

theorem comes_latched {m : Machine δ} (quiet : m.bus = 0) (w : ControlWord) :
    Comes (m.Serves w) (m.latched w)
      ((w.unitDrivers ++ w.registerDrivers).foldlM drive m >>= fun n =>
        w.latchers.foldlM (latch m.registers.address) n) := by
  have latchers (journal : Array Event) :
      Comes ((w.contains .instructionIn → ∃ op, Opcode.ofId? (m.carried w) = some op) ∧
          (w.contains .memoryIn → ∃ i, m.memory.cell? m.registers.address = some i) ∧
            (w.contains .peripheralIn →
              ∃ port, (m.ports.reached (m.asked w)).select? m.registers.address = some port))
        { m.latched w with journal }
        (w.latchers.foldlM (latch m.registers.address)
          { m with bus := m.carried w, ports := m.ports.reached (m.asked w), journal }) :=
    comes_latchers { m with
      bus := m.carried w, ports := m.ports.reached (m.asked w), journal } w m.registers.address
  refine ((comes_drivers quiet w).bind latchers).congr ⟨?_, ?_⟩
  · rintro ⟨⟨read, ask⟩, decode, write, send⟩
    exact ⟨read, ask, decode, write, fun h => PortTable.exists_select?_reached.1 (send h)⟩
  · rintro ⟨read, ask, decode, write, send⟩
    exact ⟨⟨read, ask⟩, decode, write, fun h => PortTable.exists_select?_reached.2 (send h)⟩

section finish

variable (m : Machine δ) (w : ControlWord)

theorem registers_finish : (m.finish w).registers =
    if w.contains .programCounterIncrement then m.registers.increment .programCounter
    else m.registers := by
  unfold finish
  cases w.contains .programCounterIncrement <;> cases w.contains .halt <;> rfl

theorem ports_finish : (m.finish w).ports = m.ports.reached
    (if w.contains .halt then (List.range m.ports.length).map .disconnected else []) := by
  unfold finish
  cases w.contains .halt with
  | true =>
    have disconnected := m.ports.disconnectAll_eq_reached
    cases w.contains .programCounterIncrement <;> exact disconnected
  | false =>
    simp only [Bool.false_eq_true, if_false, PortTable.reached_nil]
    cases w.contains .programCounterIncrement <;> rfl

theorem halts_finish : (m.finish w).control =
    if w.contains .halt then m.control.halted else m.control := by
  unfold finish
  cases w.contains .programCounterIncrement <;> cases w.contains .halt <;> rfl

theorem frame_finish : (m.finish w).memory = m.memory ∧ (m.finish w).alu = m.alu ∧
    (m.finish w).bus = m.bus := by
  unfold finish
  cases w.contains .programCounterIncrement <;> cases w.contains .halt <;> exact ⟨rfl, rfl, rfl⟩

end finish

/-- all that a word changes, read from the machine before it -/
structure AtOnce (m : Machine δ) (w : ControlWord) (n : Machine δ) : Prop where
  registers : ∀ r ≠ .programCounter,
    n.registers.get r = if w.takes r then m.carried w else m.registers.get r
  counter : n.counter = (if w.takes .programCounter then m.carried w else m.counter) +
    if w.contains .programCounterIncrement then 1 else 0
  memory : n.memory =
    if w.contains .memoryIn then m.memory.put m.registers.address (m.carried w) else m.memory
  alu : n.alu = if w.loadsAlu then ⟨n.registers.a, n.registers.b⟩ else m.alu
  ports : n.ports = m.ports.reached (m.transfers w)
  control :
    let c := m.begun.control.opened (m.opens? w)
    n.control = (if w.contains .halt then c.halted else c).settled
  lastBus : n.lastBus = m.carried w
  bus : n.bus = 0

theorem Serves.begun {m : Machine δ} {w : ControlWord} {e : Event} :
    (m.begun.note e).Serves w ↔ m.Serves w :=
  ⟨fun h => ⟨h.read, h.ask, h.decode, h.write, h.send⟩,
    fun h => ⟨h.read, h.ask, h.decode, h.write, h.send⟩⟩

theorem atOnce_finish (m : Machine δ) (w : ControlWord) (journal : Array Event) :
    AtOnce m w ({ m.begun.latched w with journal }.finish w).settle := by
  let n : Machine δ := { m.begun.latched w with journal }
  have registers : n.registers = m.registers.latched w.takes (m.carried w) := rfl
  have bank := n.registers_finish w
  obtain ⟨memory, alu, bus⟩ := n.frame_finish w
  constructor
  case registers =>
    intro r other
    change (n.finish w).registers.get r = _
    rw [bank, ← RegisterBank.get_latched, ← registers]
    split
    · rw [RegisterBank.increment, RegisterBank.get_set, if_neg other]
    · rfl
  case counter =>
    change (n.finish w).registers.get .programCounter = _
    rw [bank]
    split
    · rw [RegisterBank.increment, RegisterBank.get_set, if_pos rfl, registers,
        RegisterBank.get_latched]
      rfl
    · rw [registers, RegisterBank.get_latched]
      exact (BitVec.add_zero _).symm
  case alu =>
    have a : (n.finish w).registers.get .a = n.registers.get .a := by
      rw [bank]
      split <;> rfl
    have b : (n.finish w).registers.get .b = n.registers.get .b := by
      rw [bank]
      split <;> rfl
    change (n.finish w).alu = if _ then
      ⟨(n.finish w).registers.get .a, (n.finish w).registers.get .b⟩ else _
    rw [alu, a, b, w.loadsAlu_eq]
    rfl
  case ports =>
    change (n.finish w).ports = _
    have count : n.ports.length = m.ports.length := by
      change ((m.ports.reached _).reached _).length = _
      rw [PortTable.length_reached, PortTable.length_reached]
    rw [ports_finish, count]
    change ((m.ports.reached _).reached _).reached _ = _
    rw [PortTable.reached_reached, PortTable.reached_reached, ← List.append_assoc]
    rfl
  case control =>
    change (n.finish w).control.settled = _
    rw [halts_finish]
    rfl
  case memory => exact memory
  case lastBus => exact bus
  case bus => rfl

theorem comes_assert {m : Machine δ} (quiet : m.bus = 0) (w : ControlWord) :
    ∃ x, Comes (m.Serves w) (m.latched w) x ∧ m.assert w = x >>= fun n => .ok (n.finish w) :=
  ⟨_, comes_latched quiet w, (bind_assoc ..).symm⟩

theorem AtOnce.report {m n : Machine δ} {w : ControlWord} (h : AtOnce m w n.settle)
    (serves : m.Serves w) :
    (⟨w, if w.contains .instructionIn then n.current else none, n.bus⟩ : TickReport) =
      ⟨w, m.opens? w, m.carried w⟩ := by
  have current : n.current = (m.begun.control.opened (m.opens? w)).current := by
    have same := congrArg Control.current h.control
    cases halts : w.contains .halt <;> rw [halts] at same <;> exact same
  have decoded : (if w.contains .instructionIn then n.current else none) = m.opens? w := by
    rw [current, opens?]
    split
    · next decodes =>
      obtain ⟨op, known⟩ := serves.decode decodes
      rw [known]
      rfl
    · rfl
  rw [decoded, ← h.lastBus]
  rfl

theorem tick_atOnce {m : Machine δ} (quiet : m.bus = 0) (running : m.isRunning) :
    ((∃ report, m.tick.2 = .ok report) ↔ m.Serves m.word) ∧
      ∀ report, m.tick.2 = .ok report →
        report = ⟨m.word, m.opens? m.word, m.carried m.word⟩ ∧ AtOnce m m.word m.tick.1 := by
  obtain ⟨x, comes, eq⟩ := comes_assert (m := m.begun.note (.tick m.ticks m.word)) quiet m.word
  rw [tick_running running, eq]
  cases comes with
  | error cannot =>
    refine ⟨⟨?_, fun serves => absurd (Serves.begun.2 serves) cannot⟩, nofun⟩
    rintro ⟨report, failed⟩
    cases failed
  | @ok n can same =>
    have serves := Serves.begun.1 can
    have once : AtOnce m m.word (n.finish m.word).settle := by
      rw [same]
      exact atOnce_finish m m.word n.journal
    refine ⟨⟨fun _ => serves, fun _ => ⟨_, rfl⟩⟩, fun report done => ⟨?_, once⟩⟩
    exact (Except.ok.inj done).symm.trans (once.report serves)

theorem bus_tick {m : Machine δ} (quiet : m.bus = 0) : m.tick.1.bus = 0 := by
  by_cases running : m.isRunning
  · rw [tick_running running]
    cases (m.begun.note (.tick m.ticks m.word)).assert m.word <;> rfl
  · rw [tick_stopped running]
    exact quiet

theorem bus_act {m : Machine δ} (quiet : m.bus = 0) (call : Action δ) : (m.act call).bus = 0 := by
  cases call with
  | tick | step | run _ | runOn _ _ =>
    exact act_keeps (P := fun n => n.bus = 0) (fun _ quiet => bus_tick quiet) quiet rfl
  | halt =>
    rw [act, halt]
    split <;> exact quiet
  | enqueue _ | attach _ | setRegister _ _ => exact quiet
  | load image =>
    rw [act, load]
    split <;> exact quiet
  | poke address value =>
    rw [act, poke]
    cases m.memory.write address value <;> exact quiet

theorem bus_foldl_act {m : Machine δ} (quiet : m.bus = 0) (calls : List (Action δ)) :
    (calls.foldl Machine.act m).bus = 0 := by
  induction calls generalizing m with
  | nil => exact quiet
  | cons call rest ih => exact ih (bus_act quiet call)

/-- the lines of one word act at once: a tick succeeds exactly when every access of its word is
possible, and what it leaves is made of values that were there before it -/
theorem tick_simultaneous (start : Machine δ) (quiet : start.bus = 0) (calls : List (Action δ))
    (running : (calls.foldl Machine.act start).isRunning) :
    let m := calls.foldl Machine.act start
    ((∃ report, m.tick.2 = .ok report) ↔ m.Serves m.word) ∧
      ∀ report, m.tick.2 = .ok report →
        report = ⟨m.word, m.opens? m.word, m.carried m.word⟩ ∧ AtOnce m m.word m.tick.1 :=
  tick_atOnce (bus_foldl_act quiet calls) running

/-- a contended bus: `IO` wins over `A` and the cell, and no line sees what another one latches -/
theorem tick_simultaneous_contended :
    let word := ControlWord.ofList [.instructionParamIn, .programCounterIn,
      .programCounterIncrement, .addressIn, .aIn, .aOut, .ioOut, .memoryIn, .memoryOut,
      .peripheralIn, .halt]
    let m : Machine Device := [.attach .mute, .setRegister .a 5, .setRegister .io 7,
      .enqueue ⟨word, .empty, .empty⟩].foldl act (new 4)
    m.isRunning ∧ m.tick.2 = .ok ⟨word, none, 7⟩ ∧ m.tick.1.registers.get .a = 7 ∧
      m.tick.1.counter = 8 ∧ m.tick.1.memory.cells = #[7, 0] ∧ m.tick.1.alu = ⟨7, 0⟩ ∧
      m.tick.1.ports.traffic = #[.written 0 7, .disconnected 0] ∧
      m.tick.1.condition = .halted := by
  intro word m
  have pending : m.word = word := by decide
  have bus : m.carried word = 7 := by decide
  have opens : m.opens? word = none := by decide
  have transfers : m.transfers word = [.written 0 7, .disconnected 0] := by decide
  have running : m.isRunning := by decide
  have simultaneous := tick_simultaneous (new 4) rfl _ running
  have serves : m.Serves word := by
    refine ⟨fun _ => ⟨0, rfl⟩, ?_, ?_, fun _ => ⟨0, rfl⟩, fun _ => ⟨_, rfl⟩⟩ <;>
      exact fun contains => absurd contains (by decide)
  change (_ ↔ m.Serves m.word) ∧ ∀ report, m.tick.2 = .ok report → _ ∧ AtOnce m m.word _
    at simultaneous
  rw [pending, bus, opens] at simultaneous
  obtain ⟨report, done⟩ := simultaneous.1.2 serves
  obtain ⟨rfl, once⟩ := simultaneous.2 report done
  obtain ⟨registers, counter, memory, alu, ports, control, -, -⟩ := once
  rw [bus] at registers counter memory
  rw [transfers] at ports
  have a : m.tick.1.registers.get .a = 7 := (registers .a (by decide)).trans (by decide)
  have b : m.tick.1.registers.get .b = 0 := (registers .b (by decide)).trans (by decide)
  refine ⟨running, done, a, counter.trans (by decide), ?_, ?_, ?_, ?_⟩
  · exact (congrArg Memory.cells memory).trans (by decide)
  · rw [if_pos (by decide : word.loadsAlu)] at alu
    exact alu.trans (congrArg₂ Alu.mk a b)
  · exact (congrArg PortTable.traffic ports).trans (by decide)
  · exact (congrArg Control.condition control).trans (by decide)

end Machine

end OneBus
