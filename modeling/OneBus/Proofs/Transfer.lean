import OneBus.Proofs.Alike
import OneBus.Proofs.Instruction

/-!
What the words of the fetch and of the instruction set do. Nearly all of them have one driver and
one latch, so they carry one value over the bus: from a register, a cell or the arithmetic unit to
a register or a cell. Each lemma gives the machine behind the word, or the failure it ends in.
-/

namespace OneBus

namespace ControlWord

/-- a word with one driver and one latch does nothing else -/
theorem lines_pair {s t : Signal} (driver : s.isDriver) (latch : t.isLatch) :
    let w := ofList [s, t]
    w.unitDrivers ++ w.registerDrivers = [s] ∧ w.latchers = [t] ∧
      w.contains .programCounterIncrement = false ∧ w.contains .halt = false ∧
      w.contains .instructionIn = (t == .instructionIn) ∧ w.isEmpty = false := by
  have all : ∀ s ∈ Signal.all, ∀ t ∈ Signal.all, s.isDriver → t.isLatch →
      let w := ofList [s, t]
      w.unitDrivers ++ w.registerDrivers = [s] ∧ w.latchers = [t] ∧
        w.contains .programCounterIncrement = false ∧ w.contains .halt = false ∧
        w.contains .instructionIn = (t == .instructionIn) ∧ w.isEmpty = false := by
    decide +kernel
  exact all s s.mem_all t t.mem_all driver latch

theorem plain_pair {s t : Signal} (driver : s.isDriver) (latch : t.isLatch)
    (plain : t ≠ .instructionIn) : (ofList [s, t]).contains .instructionIn = false := by
  rw [(lines_pair driver latch).2.2.2.2.1]
  simpa using plain

end ControlWord

namespace Signal

theorem isDriver_driving (r : GeneralRegister) : (driving r).isDriver := by cases r <;> rfl

theorem isLatch_latching (r : GeneralRegister) : (latching r).isLatch := by cases r <;> rfl

theorem latching_plain (r : GeneralRegister) : latching r ≠ instructionIn := by cases r <;> decide

end Signal

namespace Opcode

theorem words_move (ends : Move) :
    (move ends).microprogram.words = [.ofList [.driving ends.source, .latching ends.target]] := by
  have := (ControlWord.lines_pair (Signal.isDriver_driving ends.source)
    (Signal.isLatch_latching ends.target)).2.2.2.2.2
  simp only [microprogram, Microprogram.ofSignals, Microprogram.words, Microprogram.slots]
  rw [List.filter_cons_of_pos (by simp [this])]
  rfl

theorem words_load (r : GeneralRegister) : (load r).microprogram.words =
    [.ofList [.instructionOut, .addressIn], .ofList [.memoryOut, .latching r]] := by
  cases r <;> rfl

theorem words_loadImmediate (r : GeneralRegister) : (loadImmediate r).microprogram.words =
    [.ofList [.instructionOut, .memoryIn], .ofList [.memoryOut, .latching r]] := by
  cases r <;> rfl

theorem words_store (r : GeneralRegister) : (store r).microprogram.words =
    [.ofList [.instructionOut, .addressIn], .ofList [.driving r, .memoryIn]] := by
  cases r <;> rfl

theorem words_eq_nil {op : Opcode} (h : op.microprogram.words = []) :
    op = jumpZero ∨ op = jumpCarry := by
  have all : ∀ o ∈ all, o.microprogram.words = [] → o = jumpZero ∨ o = jumpCarry := by decide
  exact all op op.mem_all h

end Opcode

namespace Machine

variable {δ : Type}

theorem decode_known {m : Machine δ} (op : Opcode)
    (known : Opcode.ofId? m.registers.instruction = some op) (a : Word) :
    m.decode a = .ok { m.note (.decoded a op) with
      queue := m.queue ++ op.microprogram.words
      operation := op.microprogram.operation
      current := some op
      instructions := m.instructions + 1 } := by
  rw [decode, known]

theorem decode_unknown {m : Machine δ} (unknown : Opcode.ofId? m.registers.instruction = none)
    (a : Word) : m.decode a = .error ⟨m, .invalidOpcode m.registers.instruction a⟩ := by
  rw [decode, unknown]

variable [Peripheral δ]

theorem assert_lines {w : ControlWord} (drivers takers : List Signal)
    (hd : w.unitDrivers ++ w.registerDrivers = drivers) (hl : w.latchers = takers)
    (m : Machine δ) :
    m.assert w = do
      let n ← drivers.foldlM drive m
      let n ← takers.foldlM (latch m.registers.address) n
      return n.finish w := by
  rw [assert, hd, hl]

theorem assert_pair {s t : Signal} (driver : s.isDriver) (latch : t.isLatch) (m : Machine δ) :
    m.assert (.ofList [s, t]) = m.drive s >>= fun n => n.latch m.registers.address t := by
  obtain ⟨hd, hl, steady, runs, -⟩ := ControlWord.lines_pair driver latch
  rw [assert_lines _ _ hd hl]
  simp only [List.foldlM_cons, List.foldlM_nil, bind_pure, finish, steady, runs]
  simp

theorem drive_register {s : Signal} {r : Register} (h : s.drives = some r) (m : Machine δ) :
    m.drive s = .ok { m with bus := m.registers.get r } := by
  cases s <;> cases h <;> rfl

theorem latch_register {t : Signal} {r : Register} (h : t.latches = some r)
    (plain : t ≠ .instructionIn) (a : Word) (m : Machine δ) :
    m.latch a t = .ok (m.latchRegister r) := by
  cases t <;> first | contradiction | (cases h; rfl)

section

variable {m : Machine δ} {v : Word} {e : MemoryError}

theorem drive_memory (read : m.memory.read m.registers.address = .ok v) :
    m.drive .memoryOut = .ok { m with bus := v } := by
  simp only [drive, read]

theorem drive_memory_error (read : m.memory.read m.registers.address = .error e) :
    m.drive .memoryOut = .error ⟨m, .memory e⟩ := by
  simp only [drive, read]

theorem assert_transfer {s t : Signal} {source target : Register} (hs : s.drives = some source)
    (ht : t.latches = some target) (plain : t ≠ .instructionIn) (m : Machine δ) :
    m.assert (.ofList [s, t]) =
      .ok { m.put target (m.registers.get source) with bus := m.registers.get source } := by
  have driver : s.isDriver := by simp [Signal.isDriver, hs]
  have latch : t.isLatch := by simp [Signal.isLatch, ht]
  rw [assert_pair driver latch, drive_register hs]
  exact latch_register ht plain ..

theorem assert_read {t : Signal} {target : Register} (ht : t.latches = some target)
    (plain : t ≠ .instructionIn) (read : m.memory.read m.registers.address = .ok v) :
    m.assert (.ofList [.memoryOut, t]) = .ok { m.put target v with bus := v } := by
  have latch : t.isLatch := by simp [Signal.isLatch, ht]
  rw [assert_pair rfl latch, drive_memory read]
  exact latch_register ht plain ..

theorem assert_read_error {t : Signal} (ht : t.isLatch)
    (read : m.memory.read m.registers.address = .error e) :
    m.assert (.ofList [.memoryOut, t]) = .error ⟨m, .memory e⟩ := by
  rw [assert_pair rfl ht, drive_memory_error read]
  rfl

theorem assert_write {s : Signal} {source : Register} {memory : Memory}
    (hs : s.drives = some source)
    (write : m.memory.write m.registers.address (m.registers.get source) = .ok memory) :
    m.assert (.ofList [s, .memoryIn]) =
      .ok { m with bus := m.registers.get source, memory } := by
  have driver : s.isDriver := by simp [Signal.isDriver, hs]
  rw [assert_pair driver rfl, drive_register hs]
  change latch m.registers.address { m with bus := m.registers.get source } .memoryIn = _
  simp only [latch, write]

theorem assert_write_error {s : Signal} {source : Register} (hs : s.drives = some source)
    (write : m.memory.write m.registers.address (m.registers.get source) = .error e) :
    m.assert (.ofList [s, .memoryIn]) =
      .error ⟨{ m with bus := m.registers.get source }, .memory e⟩ := by
  have driver : s.isDriver := by simp [Signal.isDriver, hs]
  rw [assert_pair driver rfl, drive_register hs]
  change latch m.registers.address { m with bus := m.registers.get source } .memoryIn = _
  simp only [latch, write]

end

theorem assert_memory_latch {s : Signal} (h : s = .instructionIn ∨ s = .instructionParamIn)
    (m : Machine δ) :
    m.assert (.ofList [.memoryOut, s, .programCounterIncrement]) =
      m.drive .memoryOut >>= fun n => n.latch m.registers.address s >>= fun n =>
        .ok { n with registers := n.registers.increment .programCounter } := by
  obtain rfl | rfl := h
  · rw [assert_lines [.memoryOut] [.instructionIn] rfl rfl]
    simp only [List.foldlM_cons, List.foldlM_nil, bind_pure]
    rfl
  · rw [assert_lines [.memoryOut] [.instructionParamIn] rfl rfl]
    simp only [List.foldlM_cons, List.foldlM_nil, bind_pure]
    rfl

section

variable {m : Machine δ} {code : Word} {op : Opcode} {e : MemoryError}

theorem assert_opcode (read : m.memory.read m.registers.address = .ok code)
    (known : Opcode.ofId? code = some op) :
    m.assert (.ofList [.memoryOut, .instructionIn, .programCounterIncrement]) =
      .ok { m.note (.decoded m.registers.address op) with
        registers := { m.registers with
          instruction := code
          programCounter := m.counter + 1 }
        bus := code
        queue := m.queue ++ op.microprogram.words
        operation := op.microprogram.operation
        current := some op
        instructions := m.instructions + 1 } := by
  rw [assert_memory_latch (.inl rfl), drive_memory read]
  change (decode _ _ >>= _) = _
  rw [decode_known op]
  · rfl
  · exact known

theorem assert_opcode_unknown (read : m.memory.read m.registers.address = .ok code)
    (unknown : Opcode.ofId? code = none) :
    m.assert (.ofList [.memoryOut, .instructionIn, .programCounterIncrement]) =
      .error ⟨{ m with registers := { m.registers with instruction := code }, bus := code },
        .invalidOpcode code m.registers.address⟩ := by
  rw [assert_memory_latch (.inl rfl), drive_memory read]
  change (decode _ _ >>= _) = _
  rw [decode_unknown]
  · rfl
  · exact unknown

theorem assert_fetch_error {s : Signal} (h : s = .instructionIn ∨ s = .instructionParamIn)
    (read : m.memory.read m.registers.address = .error e) :
    m.assert (.ofList [.memoryOut, s, .programCounterIncrement]) = .error ⟨m, .memory e⟩ := by
  rw [assert_memory_latch h, drive_memory_error read]
  rfl

theorem assert_operand {x : Word} (read : m.memory.read m.registers.address = .ok x) :
    m.assert (.ofList [.memoryOut, .instructionParamIn, .programCounterIncrement]) =
      .ok { m with
        registers := { m.registers with
          instruction := x
          programCounter := m.counter + 1 }
        bus := x } := by
  rw [assert_memory_latch (.inr rfl), drive_memory read]
  rfl

end

/-- an arithmetic word; only an instruction decides on the sign -/
theorem assert_alu {w : ControlWord} (h : w = .ofList [.aluEnable, .accumulatorIn] ∨
    w = .ofList [.aluEnable, .accumulatorIn, .subtract]) (m : Machine δ) :
    m.assert w =
      .ok { m.put .accumulator (m.alu.result m.operation) with
        bus := m.alu.result m.operation } := by
  obtain rfl | rfl := h
  · exact assert_pair rfl rfl m
  · rw [assert_lines [.aluEnable] [.accumulatorIn] rfl rfl]
    rfl

/-- a read that loses the bus to the instruction register -/
theorem assert_overridden {m : Machine δ} {v : Word}
    (read : m.memory.read m.registers.address = .ok v) :
    m.assert (.ofList [.memoryOut, .instructionOut]) =
      .ok { m with bus := m.registers.instruction } := by
  rw [assert_lines [.memoryOut, .instructionOut] [] rfl rfl, List.foldlM_cons, drive_memory read]
  rfl

theorem assert_overridden_error {m : Machine δ} {e : MemoryError}
    (read : m.memory.read m.registers.address = .error e) :
    m.assert (.ofList [.memoryOut, .instructionOut]) = .error ⟨m, .memory e⟩ := by
  rw [assert_lines [.memoryOut, .instructionOut] [] rfl rfl, List.foldlM_cons,
    drive_memory_error read]
  rfl

theorem assert_flags (m : Machine δ) :
    m.assert (.ofList [.aluEnable, .subtract, .flagsIn]) =
      .ok { m with bus := m.alu.result m.operation } := by
  rw [assert_lines [.aluEnable] [.flagsIn] rfl rfl]
  rfl

theorem assert_halt (m : Machine δ) :
    m.assert (.ofList [.halt]) = .ok ((m.note (.halted (m.ticks + 1))).stop .halted) := by
  rw [assert_lines [] [] rfl rfl]
  rfl

section

variable {m : Machine δ} {e : PortError} {ports : PortTable δ} {v : Word}

theorem assert_input (drive : m.ports.drive m.registers.b = .ok (v, ports)) :
    m.assert (.ofList [.peripheralOut, .ioIn]) =
      .ok { { m with ports }.put .io v with bus := v } := by
  rw [assert_pair rfl rfl]
  simp only [Machine.drive, drive]
  rfl

theorem assert_input_error (drive : m.ports.drive m.registers.b = .error e) :
    m.assert (.ofList [.peripheralOut, .ioIn]) = .error ⟨m, .port e⟩ := by
  rw [assert_pair rfl rfl]
  simp only [Machine.drive, drive]
  rfl

theorem assert_output {notes : List Note}
    (write : m.ports.write m.registers.address m.registers.io = .ok (ports, notes)) :
    m.assert (.ofList [.ioOut, .peripheralIn]) =
      .ok { m with
        bus := m.registers.io
        ports
        journal := m.journal ++ notes.map Event.remark } := by
  rw [assert_pair rfl rfl, drive_register (r := .io) rfl]
  change latch m.registers.address { m with bus := m.registers.io } .peripheralIn = _
  simp only [latch, write]

theorem assert_output_error
    (write : m.ports.write m.registers.address m.registers.io = .error e) :
    m.assert (.ofList [.ioOut, .peripheralIn]) =
      .error ⟨{ m with bus := m.registers.io }, .port e⟩ := by
  rw [assert_pair rfl rfl, drive_register (r := .io) rfl]
  change latch m.registers.address { m with bus := m.registers.io } .peripheralIn = _
  simp only [latch, write]

end

end Machine
end OneBus
