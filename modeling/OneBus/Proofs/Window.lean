import OneBus.Proofs.Breakpoints

/-!
The rows that the debugger lists around the program counter. Where they begin is computed in words;
from a counter that is not negative, and for few enough rows, nothing on the way leaves the words,
`Exact`, so it can be followed in integers. Rows fall out of the window at the end of memory only, so
those that are left are the first ones, and a row's place in the list is its distance from the first.
The window begins on the grid of the body, at most half its height in front of the program counter,
or where the body begins; either way the row of the program counter is in it.
-/

namespace OneBus

/-- a range that is cut short once is cut short for good -/
theorem getElem?_filterMap_range {α : Type} {f : Nat → Option α} {n : Nat}
    (closed : ∀ i, i + 1 < n → f i = none → f (i + 1) = none) (i : Nat) :
    ((List.range n).filterMap f)[i]? = if i < n then f i else none := by
  induction n generalizing f i with
  | zero => simp
  | succ n ih =>
    have later := ih (f := fun i => f (i + 1)) fun i inside => closed (i + 1) (by omega)
    rw [List.range_succ_eq_map, List.filterMap_cons, List.filterMap_map]
    cases first : f 0 with
    | none =>
      have gone (i : Nat) (inside : i < n + 1) : f i = none := by
        induction i with
        | zero => exact first
        | succ i ih => exact closed i inside (ih (by omega))
      have rest : (List.range n).filterMap (f ∘ Nat.succ) = [] :=
        List.filterMap_eq_nil_iff.2 fun i mem => gone (i + 1) (by simpa using mem)
      rw [rest, List.getElem?_nil]
      by_cases inside : i < n + 1
      · rw [if_pos inside, gone i inside]
      · rw [if_neg inside]
    | some x =>
      cases i with
      | zero => simp [first]
      | succ i =>
        simp only [List.getElem?_cons_succ, Nat.add_lt_add_iff_right]
        exact later i

namespace Word

variable {v w x : Word}

theorem toInt_ofNat_of_lt {n : Nat} (bound : n < 0x8000) : (BitVec.ofNat 16 n).toInt = n := by
  rw [BitVec.toInt_ofNat', Int.bmod_eq_of_le] <;> omega

theorem not_ssubOverflow_iff :
    ¬ v.ssubOverflow w ↔ -0x8000 ≤ v.toInt - w.toInt ∧ v.toInt - w.toInt < 0x8000 := by
  simp only [BitVec.ssubOverflow, Bool.or_eq_true, decide_eq_true_eq]
  omega

theorem not_smulOverflow_iff :
    ¬ v.smulOverflow w ↔ -0x8000 ≤ v.toInt * w.toInt ∧ v.toInt * w.toInt < 0x8000 := by
  simp only [BitVec.smulOverflow, Bool.or_eq_true, decide_eq_true_eq]
  omega

theorem eq_add_of_plus? (found : plus? v w = some x) : x = v + w := by
  unfold plus? at found
  split at found
  · cases found
  · exact (Option.some.inj found).symm

theorem plus?_eq_some_iff : plus? v w = some x ↔ x.toInt = v.toInt + w.toInt := by
  have lower := BitVec.le_toInt x
  have upper := BitVec.toInt_lt (x := x)
  unfold plus?
  split
  · next wraps =>
    have out : v.toInt + w.toInt ≥ 0x8000 ∨ v.toInt + w.toInt < -0x8000 := by
      simpa [BitVec.saddOverflow] using wraps
    constructor
    · intro found
      cases found
    · omega
  · next fits =>
    rw [← BitVec.toInt_add_of_not_saddOverflow fits, BitVec.toInt_inj, Option.some_inj, eq_comm]

theorem exists_plus?_iff :
    (∃ x, plus? v w = some x) ↔ -0x8000 ≤ v.toInt + w.toInt ∧ v.toInt + w.toInt < 0x8000 := by
  simp only [plus?_eq_some_iff]
  constructor
  · rintro ⟨x, sum⟩
    have lower := BitVec.le_toInt x
    have upper := BitVec.toInt_lt (x := x)
    omega
  · intro bounds
    refine ⟨.ofInt 16 (v.toInt + w.toInt), ?_⟩
    rw [BitVec.toInt_ofInt, Int.bmod_eq_of_le] <;> omega

end Word

theorem Memory.exists_read_iff {m : Memory} {a : Word} (lower : 0 ≤ a.toInt) :
    (∃ w, m.read a = .ok w) ↔ a.toInt < m.length := by
  have index : a.index? = some a.toNat := Word.index?_eq_some_iff.2 ⟨lower, rfl⟩
  have inside : a.toNat < m.cells.size ↔ a.toInt < m.length := by
    rw [length]
    have := BitVec.toInt_eq_toNat_cond a
    omega
  rw [read, index, Option.bind_some, ← inside]
  cases cell : m.cells[a.toNat]? with
  | none => simpa using Array.getElem?_eq_none_iff.1 cell
  | some w => simpa using (Array.getElem?_eq_some_iff.1 cell).1

namespace Machine

variable {δ : Type} [Peripheral δ]

/-- the next step runs the instruction at the address: it reads the opcode there, decodes that one and
no other, or fails on it, and fetches the operand -/
structure Runs (m : Machine δ) (address : Word) (i : Instruction) : Prop where
  fetches : m.Fetches address
  decodes : m.history (m.step.1.ticks - m.ticks) = i.decode?.toList
  operand : i.decode? ≠ none → (m.after 6).registers.instruction = i.operand
  fails : i.decode? = none → m.step.2 = .error (.invalidOpcode i.opcode address)

section

variable {m : Machine δ} (running : m.isRunning) (empty : m.queue = []) (phase : m.phase = .idle)

include running empty phase

theorem three_le_of_loops {n : Nat} (positive : 1 ≤ n) (loop : Loops m none n m.step) : 3 ≤ n := by
  by_contra few
  have runs : (m.after n).isRunning := isRunning_of_le (by omega) (isRunning_second running empty)
  have idle : (m.after n).phase = .idle := (loop.after running).1 ▸ (loop.rests running).1
  have words := (place_after empty phase runs).words_eq idle
  have count := (counters_after m runs).2.1
  rw [words, length_script] at count
  have := duration_gap (m.history n)
  omega

/-- the one opcode that a step decodes is that of its third tick -/
theorem history_step :
    m.history (m.step.1.ticks - m.ticks) = (m.after 2).decodes?.toList := by
  obtain ⟨n, positive, -, loop⟩ := loops_step running
  have ticks := (loop.after running).2
  have lower := three_le_of_loops running empty phase positive loop
  have quiet {i : Nat} (early : i < n) (other : i ≠ 2) : (m.after i).decodes? = none := by
    by_contra decodes
    obtain ⟨op, decodes⟩ := Option.ne_none_iff_exists'.1 decodes
    have opens := (word_of_decodes decodes).2
    exact other (second_of_opening running empty phase (by omega) opens)
  have upTo (k : Nat) (bound : k ≤ n) :
      m.history k = if 2 < k then (m.after 2).decodes?.toList else [] := by
    induction k with
    | zero => rfl
    | succ k ih =>
      rw [history_succ, ih (by omega)]
      by_cases third : k = 2
      · simp [third]
      · have same : 2 < k + 1 ↔ 2 < k := by omega
        simp [quiet (by omega) third, same]
  rw [show m.step.1.ticks - m.ticks = n by omega, upTo n le_rfl, if_pos (by omega)]

theorem runs_of_read {i : Instruction} (opcode : m.memory.read m.counter = .ok i.opcode)
    (operand : m.memory.read (m.counter + 1) = .ok i.operand) : m.Runs m.counter i where
  fetches := fetches_of_empty running empty
  decodes := by
    rw [history_step running empty phase, (after_third running empty opcode).2.2]
    rfl
  operand := fun known => by
    obtain ⟨op, known⟩ := Option.ne_none_iff_exists'.1 known
    exact after_sixth running empty opcode known operand
  fails := fun unknown => by
    have unknown : Opcode.ofId? i.opcode = none := unknown
    rw [(step_refines_instruct m running empty).1, instruct, opcode]
    simp only [unknown]
    rfl

end

end Machine

namespace Debugger

/-- what a row shows: the instruction in two cells of memory, and whether the program counter is
there -/
structure Shows (d : Debugger) (row : ListingRow) (i : Instruction) : Prop where
  opcode : d.machine.memory.read row.address = .ok i.opcode
  operand : d.machine.memory.read (row.address + 1) = .ok i.operand
  text : row.text = i.text
  isCurrent : row.isCurrent ↔ row.address = d.counter

/-- the program counter is where an instruction of the body may stand, with cells for both halves -/
structure OnGrid (d : Debugger) : Prop where
  body : 2 ≤ d.counter.toInt
  even : d.counter.toInt % 2 = 0
  cells : d.counter.toInt + 1 < d.machine.memory.length

/-- the row in this place of the listing is the one that is marked -/
def Marks (d : Debugger) (n i : Nat) : Prop :=
  ∃ row, (d.listing n)[i]? = some row ∧ row.isCurrent

variable {d : Debugger}

/-- no difference and no product on the way to the listing leaves the words -/
structure Exact (d : Debugger) (n : Nat) : Prop where
  counter : ¬ d.counter.ssubOverflow Image.bodyStart
  aligned : ¬ d.counter.ssubOverflow d.offGrid
  halved : ¬ (BitVec.ofNat 16 (n / 2)).smulOverflow 2
  first : ¬ (d.counter - d.offGrid).ssubOverflow (half n)
  rows : ∀ i < n, ¬ (BitVec.ofNat 16 i).smulOverflow 2

section

variable {a : Word} {row : ListingRow}

theorem row?_eq_some_iff :
    d.row? a = some row ↔ ∃ opcode next operand, d.machine.memory.read a = .ok opcode ∧
      Word.plus? a 1 = some next ∧ d.machine.memory.read next = .ok operand ∧
      row = ⟨a, Instruction.text ⟨opcode, operand⟩, a = d.counter⟩ := by
  simp only [row?, bind, pure, Option.bind_eq_some_iff, toOption_eq_some_iff, Option.some_inj,
    exists_and_left, eq_comm (a := row)]

theorem shows_of_row? (found : d.row? a = some row) : row.address = a ∧ ∃ i, d.Shows row i := by
  obtain ⟨opcode, next, operand, first, sum, second, rfl⟩ := row?_eq_some_iff.1 found
  rw [Word.eq_add_of_plus? sum] at second
  exact ⟨rfl, ⟨opcode, operand⟩, first, second, rfl, by simp⟩

theorem exists_row?_iff (lower : 0 ≤ a.toInt) :
    (∃ row, d.row? a = some row) ↔
      a.toInt + 1 < 0x8000 ∧ a.toInt + 1 < d.machine.memory.length := by
  have one : (1 : Word).toInt = 1 := rfl
  constructor
  · rintro ⟨row, found⟩
    obtain ⟨opcode, next, operand, first, sum, second, rfl⟩ := row?_eq_some_iff.1 found
    have bounds := Word.exists_plus?_iff.1 ⟨next, sum⟩
    have place := Word.plus?_eq_some_iff.1 sum
    have inside := (Memory.exists_read_iff (by omega)).1 ⟨operand, second⟩
    omega
  · rintro ⟨inside, cells⟩
    obtain ⟨next, sum⟩ := (Word.exists_plus?_iff (v := a) (w := 1)).2 (by omega)
    have place := Word.plus?_eq_some_iff.1 sum
    have here : a.toInt < d.machine.memory.length := by omega
    have behind : next.toInt < d.machine.memory.length := by omega
    obtain ⟨opcode, first⟩ := (Memory.exists_read_iff lower).2 here
    obtain ⟨operand, second⟩ := (Memory.exists_read_iff (by omega)).2 behind
    exact ⟨_, row?_eq_some_iff.2 ⟨opcode, next, operand, first, sum, second, rfl⟩⟩

end

theorem double_exact {i : Nat} (few : i ≤ 16383) : ¬ (BitVec.ofNat 16 i).smulOverflow 2 := by
  have two : (2 : Word).toInt = 2 := rfl
  rw [Word.not_smulOverflow_iff, Word.toInt_ofNat_of_lt (by omega), two]
  omega

theorem toInt_double {i : Nat} (few : i ≤ 16383) :
    (BitVec.ofNat 16 i * 2).toInt = 2 * (i : Int) := by
  have two : (2 : Word).toInt = 2 := rfl
  rw [BitVec.toInt_mul_of_not_smulOverflow (double_exact few),
    Word.toInt_ofNat_of_lt (by omega), two, Int.mul_comm]

theorem shows_of_rowAt? {n i : Nat} (few : n ≤ 16383) (inside : i < n) {row : ListingRow}
    (found : d.rowAt? n i = some row) :
    row.address.toInt = (d.firstRow n).toInt + 2 * i ∧ ∃ i, d.Shows row i := by
  obtain ⟨a, sum, found⟩ := Option.bind_eq_some_iff.1 found
  obtain ⟨rfl, shows⟩ := shows_of_row? found
  have place := Word.plus?_eq_some_iff.1 sum
  rw [toInt_double (by omega)] at place
  exact ⟨place, shows⟩

theorem listing_eq {n : Nat} (few : n ≤ 16383) :
    d.listing n = (List.range n).filterMap (d.rowAt? n) := by
  rw [listing, Word.toInt_ofNat_of_lt (by omega), Int.toNat_natCast]

section

variable {n : Nat} (lower : 0 ≤ d.counter.toInt)

include lower

theorem counter_exact : ¬ d.counter.ssubOverflow Image.bodyStart := by
  have start : Image.bodyStart.toInt = 2 := rfl
  have upper := BitVec.toInt_lt (x := d.counter)
  exact Word.not_ssubOverflow_iff.2 (by omega)

theorem toInt_offGrid : d.offGrid.toInt = d.counter.toInt % 2 := by
  have start : Image.bodyStart.toInt = 2 := rfl
  rw [offGrid, BitVec.toInt_sub_of_not_ssubOverflow (counter_exact lower), start,
    BitVec.toInt_ofInt, Int.bmod_eq_of_le] <;> omega

theorem aligned_exact : ¬ d.counter.ssubOverflow d.offGrid := by
  have upper := BitVec.toInt_lt (x := d.counter)
  have off := toInt_offGrid lower
  exact Word.not_ssubOverflow_iff.2 (by omega)

theorem toInt_aligned :
    (d.counter - d.offGrid).toInt = d.counter.toInt - d.counter.toInt % 2 := by
  rw [BitVec.toInt_sub_of_not_ssubOverflow (aligned_exact lower), toInt_offGrid lower]

variable (few : n ≤ 16383)

include few

theorem exact_of_bounds : d.Exact n where
  counter := counter_exact lower
  aligned := aligned_exact lower
  halved := double_exact (by omega)
  first := by
    have upper := BitVec.toInt_lt (x := d.counter)
    have aligned := toInt_aligned lower
    have half : (half n).toInt = 2 * (n / 2 : Nat) := toInt_double (by omega)
    exact Word.not_ssubOverflow_iff.2 (by omega)
  rows := fun i inside => double_exact (by omega)

theorem toInt_firstRow :
    (d.firstRow n).toInt =
      max (d.counter.toInt - d.counter.toInt % 2 - 2 * (n / 2 : Nat)) 2 := by
  have start : Image.bodyStart.toInt = 2 := rfl
  have half : (half n).toInt = 2 * (n / 2 : Nat) := toInt_double (by omega)
  have value := BitVec.toInt_sub_of_not_ssubOverflow (exact_of_bounds lower few).first
  rw [toInt_aligned lower, half] at value
  simp only [firstRow]
  split <;> omega

theorem firstRow_grid : 2 ≤ (d.firstRow n).toInt ∧ (d.firstRow n).toInt % 2 = 0 := by
  rw [toInt_firstRow lower few]
  omega

theorem exists_index (grid : d.OnGrid) (rows : 1 ≤ n) :
    ∃ i < n, (d.firstRow n).toInt + 2 * (i : Nat) = d.counter.toInt := by
  obtain ⟨body, even, -⟩ := grid
  have first := toInt_firstRow lower few
  exact ⟨((d.counter.toInt - (d.firstRow n).toInt) / 2).toNat, by omega, by omega⟩

theorem exists_rowAt?_iff {i : Nat} (inside : i < n) :
    (∃ row, d.rowAt? n i = some row) ↔
      (d.firstRow n).toInt + 2 * i + 1 < 0x8000 ∧
        (d.firstRow n).toInt + 2 * i + 1 < d.machine.memory.length := by
  have grid := (firstRow_grid lower few).1
  have double := toInt_double (i := i) (by omega)
  constructor
  · rintro ⟨row, found⟩
    obtain ⟨a, sum, found⟩ := Option.bind_eq_some_iff.1 found
    have place := Word.plus?_eq_some_iff.1 sum
    have bounds := (exists_row?_iff (by omega)).1 ⟨row, found⟩
    omega
  · rintro ⟨upper, cells⟩
    obtain ⟨a, sum⟩ := (Word.exists_plus?_iff (v := d.firstRow n)).2
      (by omega : -0x8000 ≤ _ + (BitVec.ofNat 16 i * 2).toInt ∧ _)
    have place := Word.plus?_eq_some_iff.1 sum
    obtain ⟨row, found⟩ := (exists_row?_iff (d := d) (a := a) (by omega)).2 (by omega)
    exact ⟨row, Option.bind_eq_some_iff.2 ⟨a, sum, found⟩⟩

theorem getElem?_listing (i : Nat) :
    (d.listing n)[i]? = if i < n then d.rowAt? n i else none := by
  rw [listing_eq few]
  refine getElem?_filterMap_range (fun i inside gone => ?_) i
  by_contra found
  obtain ⟨row, found⟩ := Option.ne_none_iff_exists'.1 found
  have bounds := (exists_rowAt?_iff lower few inside).1 ⟨row, found⟩
  obtain ⟨row, before⟩ := (exists_rowAt?_iff (i := i) lower few (by omega)).2
    (by push_cast at bounds; omega)
  rw [gone] at before
  cases before

theorem row_of_getElem? {i : Nat} {row : ListingRow} (found : (d.listing n)[i]? = some row) :
    row.address.toInt = (d.firstRow n).toInt + 2 * i ∧
      row.address.toInt + 1 < d.machine.memory.length ∧ ∃ instruction, d.Shows row instruction := by
  rw [getElem?_listing lower few] at found
  split at found
  · next inside =>
    obtain ⟨place, shows⟩ := shows_of_rowAt? few inside found
    have cells := ((exists_rowAt?_iff lower few inside).1 ⟨row, found⟩).2
    exact ⟨place, by omega, shows⟩
  · cases found

theorem onGrid_of_current {row : ListingRow} (mem : row ∈ d.listing n) (current : row.isCurrent) :
    row.address = d.counter ∧ d.OnGrid := by
  obtain ⟨i, found⟩ := List.mem_iff_getElem?.1 mem
  obtain ⟨place, cells, instruction, shows⟩ := row_of_getElem? lower few found
  have here := shows.isCurrent.1 current
  have grid := firstRow_grid lower few
  rw [here] at place cells
  exact ⟨here, by omega, by omega, cells⟩

theorem existsUnique_marks (grid : d.OnGrid) (rows : 1 ≤ n) : ∃! i, d.Marks n i := by
  obtain ⟨i, inside, place⟩ := exists_index lower few grid rows
  have upper : d.counter.toInt < 0x8000 := BitVec.toInt_lt
  obtain ⟨body, even, cells⟩ := grid
  obtain ⟨row, found⟩ := (exists_rowAt?_iff lower few inside).2 (by omega)
  have here : (d.listing n)[i]? = some row := by
    rw [getElem?_listing lower few, if_pos inside, found]
  obtain ⟨address, -, instruction, shows⟩ := row_of_getElem? lower few here
  refine ⟨i, ⟨row, here, shows.isCurrent.2 ?_⟩, ?_⟩
  · exact BitVec.eq_of_toInt_eq (address.trans place)
  · rintro j ⟨other, found, current⟩
    have same := (onGrid_of_current lower few (List.mem_of_getElem? found) current).1
    have address := (row_of_getElem? lower few found).1
    rw [same] at address
    omega

end

/-- made by any calls from outside, or by clearing what was printed -/
inductive Reached : Machine Device → Prop
  | new (memorySize : Nat) : Reached (.new memorySize)
  | act {m : Machine Device} (h : Reached m) (call : Machine.Action Device) : Reached (m.act call)
  | erase {m : Machine Device} (h : Reached m) : Reached { m with ports := m.ports.erase }

theorem Reached.idle {m : Machine Device} (h : Reached m) : m.phase = .idle ↔ m.queue = [] := by
  induction h with
  | new memorySize => simp [Machine.new]
  | act h call ih => exact Machine.idle_act ih call
  | erase h ih => exact ih

/-- With the program counter not negative and at most 16383 rows asked for, nothing on the way to the
listing leaves the words. It has at most as many rows as are asked for, on consecutive even units of
the body, each with the instruction in the two cells there. The one row that is marked is that of the
program counter, and it is there wherever in memory an instruction may stand. In a machine that runs
and is between two instructions it is the instruction that the next step runs -/
theorem listing_follows_counter (d : Debugger) {n : Nat} (lower : 0 ≤ d.counter.toInt)
    (rows : 1 ≤ n) (few : n ≤ 16383) :
    d.Exact n ∧ (d.listing n).length ≤ n ∧
    (∃ first, 2 ≤ first ∧ first % 2 = 0 ∧
      ∀ (i : Nat) (row : ListingRow), (d.listing n)[i]? = some row →
        row.address.toInt = first + 2 * i) ∧
    (∀ row ∈ d.listing n, ∃ i, d.Shows row i) ∧
    (d.OnGrid → ∃! i, d.Marks n i) ∧
    (¬ d.OnGrid → ∀ row ∈ d.listing n, ¬ row.isCurrent) ∧
    (Reached d.machine → d.machine.isRunning → d.machine.phase = .idle →
      ∀ row ∈ d.listing n, row.isCurrent → ∀ i, d.Shows row i →
        d.machine.Runs row.address i) := by
  have grid := firstRow_grid lower few
  refine ⟨exact_of_bounds lower few, ?_, ⟨(d.firstRow n).toInt, grid.1, grid.2,
    fun i row found => (row_of_getElem? lower few found).1⟩, ?_,
    fun grid => existsUnique_marks lower few grid rows, ?_, ?_⟩
  · rw [listing_eq few]
    exact (List.length_filterMap_le ..).trans_eq List.length_range
  · intro row mem
    obtain ⟨i, found⟩ := List.mem_iff_getElem?.1 mem
    exact (row_of_getElem? lower few found).2.2
  · exact fun off row mem current => off (onGrid_of_current lower few mem current).2
  · intro reached running phase row mem current i shows
    have here := (onGrid_of_current lower few mem current).1
    have opcode := shows.opcode
    have operand := shows.operand
    rw [here] at opcode operand ⊢
    exact Machine.runs_of_read running (reached.idle.1 phase) phase opcode operand

/-- between two instructions in front of a word that is no opcode; and with the program counter on its
operand -/
theorem listing_follows_counter_unknown :
    let image : Image := ⟨0, [.of (.loadImmediate .a) 7, ⟨99, 5⟩]⟩
    let d := (new image 16).run.tick
    let e := d.setRegister .programCounter 5
    d.OnGrid ∧ Reached d.machine ∧ d.machine.isRunning ∧ d.machine.phase = .idle ∧
      (∃! i, d.Marks 3 i) ∧
      (∃ row ∈ d.listing 3, row.isCurrent ∧ row.text = "??? 99, 5" ∧
        d.machine.Runs row.address ⟨99, 5⟩) ∧
      ¬ e.OnGrid ∧ e.listing 3 ≠ [] ∧ ∀ row ∈ e.listing 3, ¬ row.isCurrent := by
  intro image d e
  have grid : d.OnGrid := ⟨by decide +kernel, by decide +kernel, by decide +kernel⟩
  have booted : Reached (boot image 16) :=
    .act (.act (.new 16) (.load image)) (.attach (.display {}))
  have stepped : d.machine = (boot image 16).step.1 := tick_machine rfl (by decide)
  have reached : Reached d.machine := stepped ▸ booted.act .step
  have running : d.machine.isRunning := by decide +kernel
  have phase : d.machine.phase = .idle := by decide +kernel
  have off : ¬ e.OnGrid := fun grid => absurd grid.even (by decide +kernel)
  have lower : 0 ≤ d.counter.toInt ∧ 0 ≤ e.counter.toInt := by decide +kernel
  obtain ⟨-, -, -, -, current, -, next⟩ :=
    listing_follows_counter d (n := 3) lower.1 (by decide) (by decide)
  obtain ⟨-, -, -, -, -, unmarked, -⟩ :=
    listing_follows_counter e (n := 3) lower.2 (by decide) (by decide)
  have mem : (⟨4, "??? 99, 5", true⟩ : ListingRow) ∈ d.listing 3 := by decide +kernel
  have shows : d.Shows ⟨4, "??? 99, 5", true⟩ ⟨99, 5⟩ :=
    ⟨by decide +kernel, by decide +kernel, by decide +kernel, by decide +kernel⟩
  exact ⟨grid, reached, running, phase, current grid,
    ⟨_, mem, rfl, rfl, next reached running phase _ mem rfl _ shows⟩, off, by decide +kernel,
    unmarked off⟩

end Debugger
end OneBus
