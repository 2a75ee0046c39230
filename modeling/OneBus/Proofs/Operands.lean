import OneBus.Device
import OneBus.Proofs.Failing
import OneBus.Proofs.Refinement

/-!
The cells that single instructions take their operands from and leave their results in. The pair
forms of addition and subtraction load `B` from the cell at `Address` before they use it, so they
work on the pair `A`, `B` only if that cell holds `B`. A store puts its register where a load of the
same register finds it, but it goes through `Address`, which therefore cannot be stored.
-/

namespace OneBus

namespace Memory

variable {m n : Memory} {a v w : Word}

theorem exists_write (read : m.read a = .ok w) (v : Word) : ∃ n, m.write a v = .ok n := by
  have cell : ∃ i, m.cell? a = some i := by
    rw [Memory.read] at read
    cases selects : a.index? with
    | none =>
      rw [selects] at read
      cases read
    | some i =>
      refine ⟨i, cell?_eq_some_iff.2 ⟨selects, ?_⟩⟩
      by_contra outside
      have none : m.cells[i]? = none := Array.getElem?_eq_none (Nat.le_of_not_lt outside)
      rw [selects, Option.bind_some, none] at read
      cases read
  obtain ⟨i, cell⟩ := cell
  exact ⟨_, by rw [write, cell]⟩

theorem getElem?_write (written : m.write a v = .ok n) (i : Nat) :
    n.cells[i]? = if i = a.toNat then some v else m.cells[i]? := by
  rw [write] at written
  split at written
  case h_1 j cell =>
    obtain ⟨selects, inside⟩ := cell?_eq_some_iff.1 cell
    obtain ⟨-, rfl⟩ := Word.index?_eq_some_iff.1 selects
    cases written
    by_cases same : i = a.toNat
    · subst same
      simp [show a.toNat < m.cells.size from inside]
    · rw [if_neg same]
      exact Array.getElem?_setIfInBounds_ne (Ne.symm same)
  case h_2 => cases written

end Memory

namespace Machine

variable {δ : Type}

/-- between two instructions, with both words of the next one in memory -/
structure Faces (m : Machine δ) (op : Opcode) (x : Word) : Prop where
  running : m.isRunning
  idle : m.queue = []
  opcode : m.memory.read m.counter = .ok op.id
  operand : m.memory.read (m.counter + 1) = .ok x

/-- what a store finds in its register: its own operand has gone into `Address` by then -/
def stored (m : Machine δ) (r : GeneralRegister) (n : Word) : Word :=
  if r = .address then n else m.registers.get r.register

theorem stored_fetched (m : Machine δ) (op : Opcode) (r : GeneralRegister) (n : Word) :
    ((m.fetched op n).put .address n).registers.get r.register = m.stored r n := by
  cases r <;> rfl

variable [Peripheral δ]

section

variable {m n : Machine δ} {op : Opcode} {x : Word}

theorem Faces.step (faces : m.Faces op x) :
    let k := (m.fetched op x).spend 6
    SameEnd m.step (outcome k op (k.perform op)) := by
  have whole := step_instruct faces.running faces.idle
  unfold instruct at whole
  rw [faces.opcode] at whole
  dsimp only at whole
  rw [Opcode.ofId?_id, faces.operand] at whole
  exact whole

theorem Faces.step_of_perform (faces : m.Faces op x)
    (performs : ((m.fetched op x).spend 6).perform op = .ok n) :
    m.step.2 = .ok (some op) ∧ m.step.1.registers = n.registers ∧ m.step.1.memory = n.memory ∧
      m.step.1.isRunning = n.isRunning ∧ m.step.1.queue = [] := by
  obtain ⟨alike, answer⟩ := faces.step
  rw [performs] at alike answer
  obtain ⟨bus, journal, eq⟩ := Alike.exists_eq alike.symm
  refine ⟨answer, ?_⟩
  rw [eq]
  exact ⟨rfl, rfl, rfl, rfl⟩

/-- a step that succeeds has read both words, and the instruction has taken effect -/
theorem exists_perform_of_step (running : m.isRunning) (idle : m.queue = [])
    (opcode : m.memory.read m.counter = .ok op.id) {answer : Option Opcode}
    (done : m.step.2 = .ok answer) :
    ∃ x n, m.Faces op x ∧ ((m.fetched op x).spend 6).perform op = .ok n := by
  cases operand : m.memory.read (m.counter + 1) with
  | error e =>
    have whole := (step_instruct running idle).2
    unfold instruct at whole
    rw [opcode] at whole
    dsimp only at whole
    rw [Opcode.ofId?_id, operand, done] at whole
    cases whole
  | ok x =>
    have faces : m.Faces op x := ⟨running, idle, opcode, operand⟩
    cases performs : ((m.fetched op x).spend 6).perform op with
    | ok n => exact ⟨x, n, faces, performs⟩
    | error e =>
      have answer := faces.step.2
      rw [done, performs, outcome] at answer
      split at answer <;> cases answer

end

/-- the additions and subtractions that have no operand of their own, with their signs -/
inductive PairForm : Opcode → Operation → Prop
  | sum : PairForm .sum .add
  | difference : PairForm .difference .subtract

theorem PairForm.perform {op : Opcode} {sign : Operation} (pair : PairForm op sign)
    (n : Machine δ) :
    n.perform op = n.readCell n.registers.address >>= fun v =>
      .ok ((n.put .b v).put .accumulator (sign.apply n.registers.a v)) := by
  cases pair <;> rfl

theorem apply_right_inj (sign : Operation) (a v w : Word) :
    sign.apply a v = sign.apply a w ↔ v = w := by
  cases sign <;> simp [Operation.apply]

/-- a pair form adds or subtracts the cell at `Address`, and `B` becomes that cell; so it comes to
`A` and `B` as they were exactly if `B` is in the cell already -/
theorem step_pair_form {op : Opcode} {sign : Operation} (pair : PairForm op sign) (m : Machine δ)
    (running : m.isRunning) (idle : m.queue = [])
    (next : m.memory.read m.counter = .ok op.id) :
    ((∃ answer, m.step.2 = .ok answer) ↔
        (∃ x, m.memory.read (m.counter + 1) = .ok x) ∧
          ∃ v, m.memory.read m.registers.address = .ok v) ∧
      ∀ answer, m.step.2 = .ok answer → ∃ v, m.memory.read m.registers.address = .ok v ∧
        answer = some op ∧ m.step.1.registers.b = v ∧
        m.step.1.registers.accumulator = sign.apply m.registers.a v ∧
        (m.step.1.registers.accumulator = sign.apply m.registers.a m.registers.b ↔
          v = m.registers.b) := by
  have takes {x v : Word} (faces : m.Faces op x)
      (read : m.memory.read m.registers.address = .ok v) :
      m.step.2 = .ok (some op) ∧ m.step.1.registers.b = v ∧
        m.step.1.registers.accumulator = sign.apply m.registers.a v := by
    have cell : ((m.fetched op x).spend 6).readCell m.registers.address = .ok v := readCell_ok read
    have performs := pair.perform ((m.fetched op x).spend 6)
    change _ = ((m.fetched op x).spend 6).readCell m.registers.address >>= _ at performs
    rw [cell] at performs
    obtain ⟨answer, registers, -⟩ := faces.step_of_perform performs
    rw [registers]
    exact ⟨answer, rfl, rfl⟩
  have reads {answer : Option Opcode} (done : m.step.2 = .ok answer) :
      ∃ x v, m.Faces op x ∧ m.memory.read m.registers.address = .ok v := by
    obtain ⟨x, n, faces, performs⟩ := exists_perform_of_step running idle next done
    rw [pair.perform] at performs
    obtain ⟨v, read, -⟩ := exists_ok_of_bind performs
    exact ⟨x, v, faces, mapError_eq_ok_iff.1 read⟩
  constructor
  · constructor
    · rintro ⟨answer, done⟩
      obtain ⟨x, v, faces, read⟩ := reads done
      exact ⟨⟨x, faces.operand⟩, v, read⟩
    · rintro ⟨⟨x, operand⟩, v, read⟩
      exact ⟨_, (takes ⟨running, idle, next, operand⟩ read).1⟩
  · intro answer done
    obtain ⟨x, v, faces, read⟩ := reads done
    obtain ⟨same, b, accumulator⟩ := takes faces read
    refine ⟨v, read, Except.ok.inj (done.symm.trans same), b, accumulator, ?_⟩
    rw [accumulator]
    exact apply_right_inj sign ..

/-- a difference with `B` in the cell at `Address` -/
theorem step_pair_form_difference :
    let m : Machine Device :=
      (ofImage ⟨0, [.of (.loadImmediate .a) 5, .of (.loadImmediate .b) 3, .of .difference]⟩
        16).step.1.step.1
    m.isRunning ∧ m.queue = [] ∧ m.memory.read m.counter = .ok Opcode.difference.id ∧
      m.step.1.registers.accumulator = 2 ∧ m.step.1.registers.b = 3 := by
  intro m
  have running : m.isRunning := by decide
  have idle : m.queue = [] := by decide
  have next : m.memory.read m.counter = .ok Opcode.difference.id := by decide
  have a : m.registers.a = 5 := by decide
  have cell : m.memory.read m.registers.address = .ok 3 := by decide
  have done : ∃ answer, m.step.2 = .ok answer :=
    ((step_pair_form .difference m running idle next).1).2 ⟨⟨0, by decide⟩, 3, cell⟩
  obtain ⟨answer, done⟩ := done
  obtain ⟨v, read, -, b, accumulator, -⟩ :=
    (step_pair_form .difference m running idle next).2 answer done
  obtain rfl : 3 = v := Except.ok.inj (cell.symm.trans read)
  rw [a] at accumulator
  exact ⟨running, idle, next, accumulator, b⟩

/-- a sum behind an immediate load of `A` adds `A` to itself: the load has left it in the cell at
`Address` -/
theorem step_pair_form_doubles :
    let m : Machine Device :=
      (ofImage ⟨0, [.of (.loadImmediate .b) 3, .of (.loadImmediate .a) 5, .of .sum]⟩
        16).step.1.step.1
    m.isRunning ∧ m.queue = [] ∧ m.memory.read m.counter = .ok Opcode.sum.id ∧
      m.registers.a = 5 ∧ m.registers.b = 3 ∧ m.step.2 = .ok (some .sum) ∧
      m.step.1.registers.accumulator ≠ m.registers.a + m.registers.b ∧
      m.step.1.registers.b ≠ m.registers.b := by
  decide

section

variable {m : Machine δ} {r : GeneralRegister} {n : Word}

theorem Faces.step_store (faces : m.Faces (.store r) n) {memory : Memory}
    (written : m.memory.write n (m.stored r n) = .ok memory) :
    m.step.2 = .ok (some (.store r)) ∧ m.step.1.isRunning ∧ m.step.1.queue = [] ∧
      m.step.1.counter = m.counter + 2 ∧ m.step.1.memory = memory := by
  let k := ((m.fetched (.store r) n).spend 6).put .address n
  have performs : ((m.fetched (.store r) n).spend 6).perform (.store r) =
      .ok { k with memory } := by
    refine writeCell_ok (m := k) ?_
    change m.memory.write n (k.registers.get r.register) = _
    rw [← written, ← stored_fetched m (.store r) r n]
    rfl
  obtain ⟨answer, registers, same, runs, idle⟩ := faces.step_of_perform performs
  refine ⟨answer, runs.trans faces.running, idle, ?_, same⟩
  exact congrArg RegisterBank.programCounter registers

theorem Faces.step_load (faces : m.Faces (.load r) n) {v : Word}
    (read : m.memory.read n = .ok v) :
    m.step.2 = .ok (some (.load r)) ∧ m.step.1.registers.get r.register = v ∧
      m.step.1.memory = m.memory := by
  let k := (m.fetched (.load r) n).spend 6
  have cell : k.readCell n = .ok v := readCell_ok read
  have performs : k.perform (.load r) = k.readCell n >>= fun v =>
      .ok ((k.put .address n).put r.register v) := rfl
  rw [cell] at performs
  obtain ⟨answer, registers, same, -⟩ := faces.step_of_perform performs
  refine ⟨answer, ?_, same⟩
  rw [registers]
  exact (RegisterBank.get_set ..).trans (if_pos rfl)

end

/-- a store writes one cell, and a load of the same register from that cell, next in the program,
brings back what was stored, whatever has become of the registers in between -/
theorem load_restores_stored (m : Machine δ) (r : GeneralRegister) (n w : Word)
    (running : m.isRunning) (idle : m.queue = [])
    (store : m.memory.read m.counter = .ok (Opcode.store r).id)
    (first : m.memory.read (m.counter + 1) = .ok n)
    (load : m.memory.read (m.counter + 2) = .ok (Opcode.load r).id)
    (second : m.memory.read (m.counter + 3) = .ok n)
    (cell : m.memory.read n = .ok w) (apart : n ≠ m.counter + 2) (apart' : n ≠ m.counter + 3) :
    let v := m.stored r n
    let after := m.step.1
    m.step.2 = .ok (some (.store r)) ∧ after.isRunning ∧ after.queue = [] ∧
      after.counter = m.counter + 2 ∧
      (∀ i : Nat, after.memory.cells[i]? = if i = n.toNat then some v else m.memory.cells[i]?) ∧
      ∀ k : Machine δ, k.isRunning → k.queue = [] → k.counter = after.counter →
        k.memory = after.memory →
          k.step.2 = .ok (some (.load r)) ∧ k.step.1.registers.get r.register = v ∧
            k.step.1.memory = after.memory := by
  intro v after
  obtain ⟨memory, written⟩ := Memory.exists_write cell v
  obtain ⟨answer, runs, empty, counter, same⟩ :=
    Faces.step_store ⟨running, idle, store, first⟩ written
  have reads (a : Word) : after.memory.read a = if a = n then .ok v else m.memory.read a := by
    rw [same]
    exact Memory.read_write written a
  refine ⟨answer, runs, empty, counter, ?_, ?_⟩
  · rw [same]
    exact Memory.getElem?_write written
  · intro k running idle place contents
    have three : m.counter + 2 + 1 = m.counter + 3 := by rw [BitVec.add_assoc]; rfl
    have faces : k.Faces (.load r) n := by
      refine ⟨running, idle, ?_, ?_⟩
      · rw [contents, place, counter, reads, if_neg apart.symm, load]
      · rw [contents, place, counter, three, reads, if_neg apart'.symm, second]
    have back : k.memory.read n = .ok v := by rw [contents, reads, if_pos rfl]
    obtain ⟨answer, restored, kept⟩ := faces.step_load back
    exact ⟨answer, restored, kept.trans contents⟩

/-- the cell of the header is stored to -/
theorem load_restores_accumulator :
    let m : Machine Device :=
      (ofImage ⟨0, [.of (.store .accumulator) 1, .of (.load .accumulator) 1]⟩ 12).setRegister
        .accumulator 7
    let k := m.step.1.setRegister .accumulator 0
    m.isRunning ∧ m.queue = [] ∧ m.memory.read m.counter = .ok (Opcode.store .accumulator).id ∧
      m.step.2 = .ok (some (.store .accumulator)) ∧ m.step.1.memory.cells[1]? = some 7 ∧
      k.step.1.registers.accumulator = 7 := by
  intro m k
  have running : m.isRunning := by decide
  have idle : m.queue = [] := by decide
  have store : m.memory.read m.counter = .ok (Opcode.store .accumulator).id := by decide
  obtain ⟨answer, runs, empty, -, cells, back⟩ := load_restores_stored m .accumulator 1 0 running
    idle store (by decide) (by decide) (by decide) (by decide) (by decide) (by decide)
  exact ⟨running, idle, store, answer, cells 1, (back k runs empty rfl rfl).2.1⟩

/-- `Address` does not survive: its store puts the number of the cell into the cell -/
theorem stored_address_lost :
    let m : Machine Device :=
      (ofImage ⟨0, [.of (.store .address) 1, .of (.load .address) 1]⟩ 12).setRegister .address 7
    m.isRunning ∧ m.queue = [] ∧ m.memory.read m.counter = .ok (Opcode.store .address).id ∧
      m.memory.read (m.counter + 1) = .ok 1 ∧
      m.memory.read (m.counter + 2) = .ok (Opcode.load .address).id ∧
      m.memory.read (m.counter + 3) = .ok 1 ∧ m.registers.address = 7 ∧
      m.step.2 = .ok (some (.store .address)) ∧ m.step.1.memory.cells[1]? ≠ some 7 ∧
      m.step.1.step.2 = .ok (some (.load .address)) ∧
      m.step.1.step.1.registers.address ≠ 7 := by
  decide

end Machine
end OneBus
