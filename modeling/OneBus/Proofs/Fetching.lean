import OneBus.Proofs.Advance
import OneBus.Proofs.Refinement

/-!
Where the ticks of one instruction find what. From between two instructions the third tick reads
the opcode that the program counter points at and decodes it, the fifth reads the operand behind
it, and a jump is done with its seventh tick. An instruction of an image is two cells of memory,
and after loading the cells are those of the image as far as memory goes.
-/

namespace OneBus

namespace Memory

/-- an instruction in its place behind the header -/
def Holds (m : Memory) (index : Nat) (i : Instruction) : Prop :=
  m.cells[2 + 2 * index]? = some i.opcode ∧ m.cells[2 + 2 * index + 1]? = some i.operand

/-- the place of an instruction has cells, and addresses for both -/
def Reaches (m : Memory) (index : Nat) : Prop :=
  2 + 2 * index + 1 ≤ 32767 ∧ 2 + 2 * index + 1 < m.length

variable {m : Memory} {index : Nat} {i : Instruction}

theorem exists_holds (reaches : m.Reaches index) : ∃ i, m.Holds index i := by
  have bound : 2 + 2 * index + 1 < m.cells.size := reaches.2
  refine ⟨⟨m.cells[2 + 2 * index], m.cells[2 + 2 * index + 1]⟩, ?_, ?_⟩
  · exact Array.getElem?_eq_getElem _
  · exact Array.getElem?_eq_getElem _

theorem read_of_toNat {a w : Word} {unit : Nat} (place : a.toNat = unit) (small : unit ≤ 32767)
    (cell : m.cells[unit]? = some w) : m.read a = .ok w := by
  have selects : Word.index? a = some unit := by
    refine Word.index?_eq_some_iff.2 ⟨?_, place⟩
    rw [BitVec.toInt_eq_toNat_of_lt (by omega)]
    omega
  rw [read, selects, Option.bind_some, cell]

end Memory

namespace Word

theorem ofByteList_image (image : Image) :
    ofByteList image.bytes =
      Image.marker :: image.entry :: image.body.flatMap Instruction.halves := by
  rw [← ofByteList_bytes (Image.marker :: image.entry :: image.body.flatMap Instruction.halves)]
  congr 1
  simp only [Image.bytes, List.flatMap_cons, List.flatMap_assoc, List.append_assoc]
  rfl

end Word

theorem getElem?_halves {body : List Instruction} {index : Nat} {i : Instruction}
    (found : body[index]? = some i) :
    (body.flatMap Instruction.halves)[2 * index]? = some i.opcode ∧
      (body.flatMap Instruction.halves)[2 * index + 1]? = some i.operand := by
  induction body generalizing index with
  | nil => simp at found
  | cons first rest ih =>
    cases index with
    | zero =>
      cases found
      exact ⟨rfl, rfl⟩
    | succ index =>
      have next : 2 * (index + 1) = 2 * index + 2 := by omega
      rw [List.getElem?_cons_succ] at found
      rw [List.flatMap_cons, next]
      exact ih found

theorem Memory.holds_load {m : Memory} {image : Image} {index : Nat} {i : Instruction}
    (found : image.body[index]? = some i) (room : 2 + 2 * index + 1 < m.length) :
    (m.load image.bytes).Holds index i := by
  obtain ⟨opcode, operand⟩ := getElem?_halves found
  have cell {k : Nat} {w : Word} (inside : 2 + k < m.length)
      (half : (image.body.flatMap Instruction.halves)[k]? = some w) :
      (m.load image.bytes).cells[2 + k]? = some w := by
    have here : (Word.ofByteList image.bytes)[2 + k]? = some w := by
      rw [Word.ofByteList_image, Nat.add_comm]
      exact half
    have short : 2 + k < ((Word.ofByteList image.bytes).take m.length).length := by
      have bound := (List.getElem?_eq_some_iff.1 here).1
      rw [List.length_take]
      omega
    rw [load, List.getElem?_toArray, List.getElem?_append_left short,
      List.getElem?_take_of_lt inside, here]
  exact ⟨cell (by omega) opcode, cell room operand⟩

namespace Machine

variable {δ : Type}

theorem Alike.registers {m n : Machine δ} (h : Alike m n) : m.registers = n.registers := by
  obtain ⟨bus, journal, rfl⟩ := h.exists_eq
  rfl

theorem boot_frame (image : Image) (memorySize : Nat) (devices : List δ) :
    ∃ ports journal, boot image memorySize devices =
      { (ofImage image memorySize : Machine δ) with ports, journal } := by
  unfold boot
  generalize ofImage image memorySize = m
  induction devices generalizing m with
  | nil => exact ⟨m.ports, m.journal, rfl⟩
  | cons d rest ih =>
    obtain ⟨ports, journal, eq⟩ := ih (m.attach d)
    exact ⟨ports, journal, eq⟩

theorem memory_boot (image : Image) (memorySize : Nat) (devices : List δ) :
    (boot image memorySize devices).memory = (Memory.zero memorySize).load image.bytes := by
  obtain ⟨ports, journal, eq⟩ := boot_frame image memorySize devices
  rw [eq, ofImage, load]
  split <;> rfl

theorem counter_boot (image : Image) (memorySize : Nat) (devices : List δ) :
    (boot image memorySize devices).counter = image.start := by
  obtain ⟨ports, journal, eq⟩ := boot_frame image memorySize devices
  rw [eq, ofImage, load]
  split <;> rfl

variable [Peripheral δ]

theorem length_memory_tick (m : Machine δ) : m.tick.1.memory.length = m.memory.length := by
  let P (n : Machine δ) : Prop := n.memory.length = m.memory.length
  refine tick_rule (P := P) (Q := P) ?_ ?_ ?_ ?_ ?_ rfl
  · exact fun n e h => h
  · exact fun n s h => Ends.drive s (fun _ => h) fun _ _ _ _ => h
  · intro n a s h
    refine Ends.latch a s h ?_ ?_ ?_ ?_
    · exact fun memory write => (Memory.length_write write).trans h
    · exact fun _ _ _ _ => h
    · exact fun _ _ => h
    · exact fun _ _ _ => h
  · intro n w h
    unfold finish
    cases w.contains .programCounterIncrement <;> cases w.contains .halt <;> exact h
  · exact fun n e h => h

theorem length_memory_after (m : Machine δ) (n : Nat) :
    (m.after n).memory.length = m.memory.length :=
  after_keeps (P := fun k => k.memory.length = m.memory.length)
    (fun k h => (length_memory_tick k).trans h) rfl n

theorem after_of_step {m n : Machine δ} {bound : Nat} {last : Option Opcode}
    {answer : Except MachineError (Option Opcode)}
    (same : SameEnd (stepWithin bound last m) (n, answer)) {k : Nat}
    (ticks : n.ticks = m.ticks + k) : Alike (m.after k) n := by
  obtain ⟨d, stepped⟩ := exists_after_stepWithin bound last m
  obtain ⟨j, moved, eq⟩ := Advances.after m d
  have alike : Alike (m.after j) n := by
    rw [← eq, ← stepped]
    exact same.1
  obtain ⟨bus, journal, differs⟩ := alike.exists_eq
  have counted : n.ticks = m.ticks + j := by rw [differs, ← moved, eq]
  obtain rfl : j = k := by omega
  exact alike

/-- a fetch is next: its third tick reads an opcode, from the address -/
structure Fetches (m : Machine δ) (address : Word) : Prop where
  pending : m.pending = fetch
  reads : (m.after 2).word = .ofList [.memoryOut, .instructionIn, .programCounterIncrement]
  address : (m.after 2).registers.address = address

section

variable {m : Machine δ} (running : m.isRunning) (empty : m.queue = [])

include running empty

theorem after_seeking : Alike (m.after 2) (m.seeking.during 2 (fetch.drop 2)) :=
  after_of_step (seeking_step running 0 none empty) rfl

/-- the third tick asserts the word that reads the opcode -/
theorem sameEnd_third :
    SameEnd (m.after 2).tick
      (conclude (.ofList [.memoryOut, .instructionIn, .programCounterIncrement])
        ({ m.seeking.during 2 (fetch.drop 2) with
          queue := fetch.drop 3, phase := .executing }.assert
            (.ofList [.memoryOut, .instructionIn, .programCounterIncrement]))) :=
  (after_seeking running empty).tick.trans
    (sameEnd_tick_cons (m := m.seeking.during 2 (fetch.drop 2)) _ (fetch.drop 3) running rfl)

theorem isRunning_second : (m.after 2).isRunning := by
  obtain ⟨bus, journal, eq⟩ := Alike.exists_eq (after_seeking running empty).symm
  rw [eq]
  exact running

theorem fetches_of_empty : m.Fetches m.counter := by
  obtain ⟨bus, journal, eq⟩ := Alike.exists_eq (after_seeking running empty).symm
  refine ⟨by simp [pending, empty], ?_, ?_⟩
  · rw [eq]
    rfl
  · rw [eq]
    rfl

theorem after_third {code : Word} (read : m.memory.read m.counter = .ok code) :
    (m.after 3).registers.address = m.counter ∧ (m.after 3).registers.instruction = code ∧
      (m.after 2).decodes? = Opcode.ofId? code := by
  have same := sameEnd_third running empty
  have registers : (m.after 3).registers = _ := Alike.registers same.1
  rw [decodes?, same.2, registers]
  cases known : Opcode.ofId? code with
  | none =>
    rw [assert_opcode_unknown (m := { m.seeking.during 2 (fetch.drop 2) with
      queue := fetch.drop 3, phase := .executing }) read known]
    exact ⟨rfl, rfl, rfl⟩
  | some op =>
    rw [assert_opcode (m := { m.seeking.during 2 (fetch.drop 2) with
      queue := fetch.drop 3, phase := .executing }) read known]
    exact ⟨rfl, rfl, rfl⟩

theorem third_fails {code : Word} (read : m.memory.read m.counter = .ok code)
    (unknown : Opcode.ofId? code = none) :
    (m.after 2).tick.2 = .error (.invalidOpcode code m.counter) := by
  rw [(sameEnd_third running empty).2, assert_opcode_unknown (m := { m.seeking.during 2
    (fetch.drop 2) with queue := fetch.drop 3, phase := .executing }) read unknown]
  rfl

theorem after_fetch {code x : Word} {op : Opcode} (read : m.memory.read m.counter = .ok code)
    (known : Opcode.ofId? code = some op) (behind : m.memory.read (m.counter + 1) = .ok x) :
    Alike (m.after 6) (if op.microprogram.words = [] then ((m.fetched op x).spend 6).resting
      else ((m.fetched op x).spend 6).during 0 op.microprogram.words) := by
  have chain := (seeking_step running 4 none empty).trans
    ((opening_step running 2 none read known).trans
      (operand_step running 0 (some op) code op behind))
  by_cases words : op.microprogram.words = []
  · rw [if_pos words] at chain ⊢
    exact after_of_step chain rfl
  · rw [if_neg words] at chain ⊢
    exact after_of_step chain rfl

/-- the fetch leaves the operand in the instruction register and the other registers as they were, but
for the program counter and the backup that `Address` comes back from -/
theorem registers_after_fetch {code x : Word} {op : Opcode}
    (read : m.memory.read m.counter = .ok code) (known : Opcode.ofId? code = some op)
    (behind : m.memory.read (m.counter + 1) = .ok x) :
    (m.after 6).registers = { m.registers with
      instruction := x
      programCounter := m.counter + 2
      addressBackup := m.registers.address } := by
  rw [(after_fetch running empty read known behind).registers]
  split <;> rfl

theorem after_sixth {code x : Word} {op : Opcode} (read : m.memory.read m.counter = .ok code)
    (known : Opcode.ofId? code = some op) (behind : m.memory.read (m.counter + 1) = .ok x) :
    (m.after 6).registers.instruction = x := by
  rw [registers_after_fetch running empty read known behind]

theorem exists_fetch (runs : (m.after 6).isRunning) :
    ∃ code op x, m.memory.read m.counter = .ok code ∧ Opcode.ofId? code = some op ∧
      m.memory.read (m.counter + 1) = .ok x := by
  have survives {bound k : Nat} {n : Machine δ} {e : MachineError}
      (fails : SameEnd (stepWithin bound none m) (n.broken k e)) (ticks : n.ticks = m.ticks)
      (early : k ≤ 6) : False := by
    have alike : Alike (m.after k) (n.broken k e).1 :=
      after_of_step fails (congrArg (· + k) ticks)
    obtain ⟨bus, journal, eq⟩ := Alike.exists_eq alike.symm
    have still : (m.after k).isRunning := isRunning_of_le early runs
    rw [eq] at still
    cases still
  cases read : m.memory.read m.counter with
  | error e =>
    have fails := (seeking_step running 1 none empty).trans (seeking_fault running 0 none read)
    exact (survives fails rfl (by decide)).elim
  | ok code =>
    cases known : Opcode.ofId? code with
    | none =>
      have fails := (seeking_step running 1 none empty).trans
        (opening_fault running 0 none read known)
      exact (survives fails rfl (by decide)).elim
    | some op =>
      cases behind : m.memory.read (m.counter + 1) with
      | error e =>
        have fails := (seeking_step running 3 none empty).trans
          ((opening_step running 1 none read known).trans
            (operand_fault running 0 (some op) code op behind))
        exact (survives fails rfl (by decide)).elim
      | ok x => exact ⟨code, op, x, rfl, known, rfl⟩

theorem after_jump {x : Word} (read : m.memory.read m.counter = .ok Opcode.jump.id)
    (behind : m.memory.read (m.counter + 1) = .ok x) :
    Alike (m.after 7) ((((m.fetched .jump x).spend 6).put .programCounter x).resting.spend 1) := by
  have step := step_instruct running empty
  rw [instruct, read] at step
  simp only [Opcode.ofId?_id, behind] at step
  exact after_of_step (k := 7) step rfl

end

end Machine
end OneBus
