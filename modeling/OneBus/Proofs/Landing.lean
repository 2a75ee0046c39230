import OneBus.Device
import OneBus.Proofs.Addresses
import OneBus.Proofs.Fetching

/-!
Labels lead where they say, from the source to the run. The assembler turns a label to an address
and puts the entry point into the image; loading puts the image into memory behind its header; and
the machine reads an instruction from where the program counter points. `assembled_lands` puts
them together: the first instruction to be fetched is the one behind `::main`, and behind a jump
to a label it is the one behind the label, as long as both of its cells can be addressed.
-/

namespace OneBus

open Assembly

namespace Assembly

/-- where a run begins: at the code below the entry label, or at all of it -/
def Begins [Build] (p : Program) (lines : List Line) (index : Nat) : Prop :=
  Marks p.symbols lines Program.entryLabel index ∨
    ¬ Defined lines Program.entryLabel ∧ index = 0

/-- an instruction of the code that comes from a jump to a label -/
def Jumps [Build] (p : Program) (lines : List Line) (name : String) (index : Nat) : Prop :=
  ∃ above line s code, above ++ [line] <+: lines ∧ line.Reads (.statement s) ∧
    s.mnemonic = .jump ∧ s.operands = [.label name] ∧ Emits p.symbols (statementsOf above) code ∧
    code.length = index

/-- the first instruction of the statement that follows a label -/
def Heads [Build] (p : Program) (lines : List Line) (name : String) (i : Instruction) : Prop :=
  ∃ above s after rest, Labelled lines above name ∧
    statementsOf lines = statementsOf above ++ s :: after ∧ s.encode p.symbols = .ok (i :: rest)

section

variable [Build] {lines : List Line} {l : Layout} {p : Program} (placed : Placed lines l p)

include placed

theorem Placed.exists_begins : ∃ index, Begins p lines index := by
  by_cases defined : Defined lines Program.entryLabel
  · obtain ⟨index, marks⟩ := placed.marked _ defined
    exact ⟨index, .inl marks⟩
  · exact ⟨0, .inr ⟨defined, rfl⟩⟩

theorem Placed.start {index : Nat} (begins : Begins p lines index) (small : 2 + 2 * index < 65536) :
    p.image.start.toNat = 2 + 2 * index := by
  rcases begins with marks | ⟨undefined, rfl⟩
  · have entry := placed.entry index marks
    have set : ¬ p.image.entry = 0 := by
      intro zero
      have zero : p.entry.toNat = 0 := congrArg BitVec.toNat zero
      omega
    rw [Image.start, if_neg set]
    change p.entry.toNat = _
    omega
  · have unset : p.image.entry = 0 := placed.no_entry undefined
    rw [Image.start, if_pos unset]
    rfl

theorem Placed.heads {name : String} {index : Nat} (marks : Marks p.symbols lines name index)
    (inside : index < p.body.length) :
    ∃ i, p.body[index]? = some i ∧ Heads p lines name i := by
  obtain ⟨above, code, ⟨line, place, reads⟩, emits, rfl⟩ := marks
  obtain ⟨rest, split⟩ := statementsOf_prefix ((List.prefix_append above [line]).trans place)
  have body := placed.body
  rw [← split] at body
  cases rest with
  | nil =>
    have whole := body.length.trans (congrArg span (List.append_nil _))
    rw [← emits.length] at whole
    omega
  | cons s after =>
    obtain ⟨i, rest, first, found⟩ := body.getElem? emits
    exact ⟨i, found, above, s, after, rest, ⟨line, place, reads⟩, split.symm, first⟩

theorem Placed.marks_of_jumps {name : String} {index : Nat} (jumps : Jumps p lines name index) :
    ∃ n, Marks p.symbols lines name n := by
  obtain ⟨above, line, s, code, place, reads, -, operands, -, -⟩ := jumps
  have mem : s ∈ statementsOf lines := mem_statementsOf.2 ⟨line, mem_of_below place, reads⟩
  exact placed.marked name (placed.defined s mem name (by simp [operands]))

theorem Placed.jump {name : String} {source index : Nat} (jumps : Jumps p lines name source)
    (marks : Marks p.symbols lines name index) :
    p.body[source]? = some (.of .jump (Image.addressOf index)) := by
  obtain ⟨above, line, s, code, place, reads, mnemonic, operands, emits, rfl⟩ := jumps
  obtain ⟨after, split⟩ := statementsOf_eq_iff.2 ⟨above, line, place, rfl, reads⟩
  have body := placed.body
  rw [split] at body
  obtain ⟨i, rest, first, found⟩ := body.getElem? emits
  have mem : s ∈ statementsOf lines := by simp [split]
  have used : .label name ∈ s.operands := by simp [operands]
  obtain ⟨i', rest', same, operand⟩ := placed.operands s mem name used index marks
  cases first.symm.trans same
  have encode : s.encode p.symbols =
      addressed p.symbols .jump (.label name) := by
    rw [s.encode_eq_form, mnemonic, operands]
    rfl
  rw [encode] at first
  obtain ⟨a, -, taken⟩ := exists_ok_of_bind first
  cases taken
  have address : a = Image.addressOf index :=
    BitVec.eq_of_toNat_eq (operand.trans (toNat_addressOf index).symm)
  rw [found, address]

end

end Assembly

namespace Machine

variable {δ : Type}

theorem read_holds {m : Machine δ} {index : Nat} {i : Instruction}
    (counter : m.counter.toNat = 2 + 2 * index) (reaches : m.memory.Reaches index)
    (holds : m.memory.Holds index i) :
    m.memory.read m.counter = .ok i.opcode ∧ m.memory.read (m.counter + 1) = .ok i.operand := by
  have small := reaches.1
  constructor
  · exact Memory.read_of_toNat counter (by omega) holds.1
  · have next : (m.counter + 1).toNat = 2 + 2 * index + 1 := by
      have one : (1 : Word).toNat = 1 := rfl
      rw [BitVec.toNat_add, counter, one]
      exact Nat.mod_eq_of_lt (by omega)
    exact Memory.read_of_toNat next small holds.2

variable [Peripheral δ]

/-- the instruction to come is read from a place of the image -/
structure FetchesAt (m : Machine δ) (index : Nat) : Prop where
  address : (m.after 3).registers.address.toNat = 2 + 2 * index
  opcode : m.memory.cells[2 + 2 * index]? = some (m.after 3).registers.instruction

/-- the instruction to come is decoded in the third tick and whole after the sixth -/
structure Takes (m : Machine δ) (i : Instruction) : Prop where
  decodes : ∃ op, i.decode? = some op ∧ (m.after 2).decodes? = some op
  operand : (m.after 6).registers.instruction = i.operand

/-- between two instructions, the next of them in its place and as the image has it -/
structure Stands (m : Machine δ) (index : Nat) (i : Instruction) : Prop where
  running : m.isRunning
  idle : m.phase = .idle
  counter : m.counter.toNat = 2 + 2 * index
  reaches : m.memory.Reaches index
  holds : m.memory.Holds index i

section

variable {m : Machine δ} {index : Nat} {i : Instruction}

variable (running : m.isRunning) (empty : m.queue = [])
  (counter : m.counter.toNat = 2 + 2 * index) (reaches : m.memory.Reaches index)

include running empty counter reaches

theorem fetchesAt : m.FetchesAt index := by
  obtain ⟨i, holds⟩ := Memory.exists_holds reaches
  obtain ⟨address, opcode, -⟩ := after_third running empty (read_holds counter reaches holds).1
  exact ⟨by rw [address, counter], by rw [opcode, holds.1]⟩

theorem takes (holds : m.memory.Holds index i) (known : ∃ op, i.decode? = some op) :
    m.Takes i := by
  obtain ⟨op, known⟩ := known
  obtain ⟨opcode, operand⟩ := read_holds counter reaches holds
  obtain ⟨-, -, decodes⟩ := after_third running empty opcode
  exact ⟨⟨op, known, decodes.trans known⟩, after_sixth running empty opcode known operand⟩

end

theorem Stands.jump {m : Machine δ} {index : Nat} {x : Word}
    (h : m.Stands index (.of .jump x)) (empty : m.queue = []) :
    (m.after 7).isRunning ∧ (m.after 7).phase = .idle ∧ (m.after 7).queue = [] ∧
      (m.after 7).counter = x := by
  obtain ⟨opcode, operand⟩ := read_holds h.counter h.reaches h.holds
  obtain ⟨bus, journal, eq⟩ := Alike.exists_eq (after_jump h.running empty opcode operand).symm
  rw [eq]
  exact ⟨h.running, rfl, rfl, rfl⟩

theorem queue_of_idle {m : Machine δ} (queue : m.queue = []) (phase : m.phase = .idle) {k : Nat}
    (runs : (m.after k).isRunning) (idle : (m.after k).phase = .idle) : (m.after k).queue = [] :=
  (place_after queue phase runs).queue_of_idle idle

section

variable [Build] {source : String} {l : Layout} {p : Program}
  (placed : Placed (linesOf source) l p)
  (memorySize : Nat) (devices : List δ)

include placed

theorem boot_takes {n : Nat} (begins : Begins p (linesOf source) n) (inside : n < p.body.length)
    (reaches : (boot p.image memorySize devices).memory.Reaches n) :
    ∃ i, p.body[n]? = some i ∧ (boot p.image memorySize devices).FetchesAt n ∧
      (boot p.image memorySize devices).Takes i := by
  have control := control_boot p.image memorySize devices
  have memory := memory_boot p.image memorySize devices
  have start := counter_boot p.image memorySize devices
  obtain ⟨queue, -⟩ := idle_boot p.image memorySize devices
  generalize boot p.image memorySize devices = m at *
  obtain ⟨small, room⟩ := reaches
  have running : m.isRunning := beq_iff_eq.2 (congrArg Control.condition control)
  have counter : m.counter.toNat = 2 + 2 * n := by
    rw [start]
    exact placed.start begins (by omega)
  have holds : m.memory.Holds n p.body[n] := by
    rw [memory] at room ⊢
    rw [Memory.length_load] at room
    exact Memory.holds_load (List.getElem?_eq_getElem inside) room
  have known := placed.body.decode? _ (List.getElem_mem inside)
  exact ⟨p.body[n], List.getElem?_eq_getElem inside,
    fetchesAt running queue counter ⟨small, room⟩,
    takes running queue counter ⟨small, room⟩ holds known⟩

/-- behind a jump at its place the run goes on at the label -/
theorem Stands.lands {m : Machine δ} {j n : Nat} {name : String} {i : Instruction}
    (stands : m.Stands j i) (empty : m.queue = []) (found : p.body[j]? = some i)
    (jumps : Jumps p (linesOf source) name j) (marks : Marks p.symbols (linesOf source) name n) :
    (m.after 7).isRunning ∧ (m.after 7).phase = .idle ∧
      (m.after 7).counter = Image.addressOf n ∧
      (n < p.body.length → m.memory.Reaches n → (m.after 7).FetchesAt n ∧
        ∀ i, p.body[n]? = some i → (m.after 7).memory.Holds n i →
          (m.after 7).Takes i ∧ Heads p (linesOf source) name i) := by
  cases found.symm.trans (placed.jump jumps marks)
  obtain ⟨running, idle, queue, counter⟩ := stands.jump empty
  refine ⟨running, idle, counter, fun inside reaches => ?_⟩
  have reaches : (m.after 7).memory.Reaches n := by
    rw [Memory.Reaches, length_memory_after]
    exact reaches
  have unit : (m.after 7).counter.toNat = 2 + 2 * n := by
    have small := reaches.1
    rw [counter, toNat_addressOf]
    omega
  refine ⟨fetchesAt running queue unit reaches, fun i here holds => ?_⟩
  obtain ⟨i', same, heads⟩ := placed.heads marks inside
  cases here.symm.trans same
  have known := placed.body.decode? i (List.mem_of_getElem? here)
  exact ⟨takes running queue unit reaches holds known, heads⟩

end

/-- the run of an assembled source: it begins behind the entry label, and a jump to a label goes
on behind the label -/
theorem assembled_lands [Build] {source : String} {image : Image}
    (done : assemble source = .ok image) (memorySize : Nat) (devices : List δ) :
    let m := boot image memorySize devices
    let lines := linesOf source
    ∃ p, Program.ofSource source = .ok p ∧ p.image = image ∧
      (∃ n, Begins p lines n) ∧
      (∀ n, Begins p lines n → n < image.body.length → m.memory.Reaches n →
        ∃ i, image.body[n]? = some i ∧ m.FetchesAt n ∧ m.Takes i) ∧
      ∀ k j name i, Jumps p lines name j → image.body[j]? = some i → (m.after k).Stands j i →
        (∃ n, Marks p.symbols lines name n) ∧
        ∀ n, Marks p.symbols lines name n →
          (m.after (k + 7)).isRunning ∧ (m.after (k + 7)).phase = .idle ∧
            (m.after (k + 7)).counter = Image.addressOf n ∧
            (n < image.body.length → m.memory.Reaches n → (m.after (k + 7)).FetchesAt n ∧
              ∀ i, image.body[n]? = some i → (m.after (k + 7)).memory.Holds n i →
                (m.after (k + 7)).Takes i ∧ Heads p lines name i) := by
  intro m lines
  obtain ⟨l, p, first, second, rfl⟩ := assemble_eq_ok_iff.1 done
  have placed : Placed lines l p := (clear_of_ofLines first).2.placed second
  refine ⟨p, ?_, rfl, placed.exists_begins, ?_, ?_⟩
  · rw [Program.ofSource, first]
    exact second
  · intro n begins inside reaches
    exact boot_takes placed memorySize devices begins inside reaches
  · intro k j name i jumps found stands
    obtain ⟨queue, phase⟩ := idle_boot p.image memorySize devices
    have empty := queue_of_idle queue phase stands.running stands.idle
    refine ⟨placed.marks_of_jumps jumps, fun n marks => ?_⟩
    obtain ⟨running, idle, counter, lands⟩ := stands.lands placed empty found jumps marks
    rw [after_add]
    refine ⟨running, idle, counter, fun inside reaches => lands inside ?_⟩
    rw [Memory.Reaches, length_memory_after]
    exact reaches

/-- what the loop over a store comes to -/
def jumpsProgram : Program := ⟨[("cell", 12), ("end", 10), ("main", 4)], jumpsImage.body⟩

theorem linesOf_jumps : linesOf jumps =
    [⟨1, ["jmp".toList, "::end".toList]⟩, ⟨2, ["::main".toList]⟩,
      ⟨3, ["sti".toList, "::cell".toList, "-1".toList]⟩, ⟨4, ["jump".toList, "::main".toList]⟩,
      ⟨5, ["::end".toList]⟩, ⟨6, ["hlt".toList]⟩, ⟨7, ["::cell".toList]⟩, ⟨8, ["out".toList]⟩] := by
  rfl

/-- once around the loop: it begins at the entry point, and the jump at its end leads back there -/
theorem assembled_lands_jumps :
    let m : Machine Device := boot jumpsImage 64 []
    assemble jumps = .ok jumpsImage ∧ m.memory.Reaches 1 ∧ m.FetchesAt 1 ∧
      (m.after 15).Stands 3 (.of .jump 4) ∧ (m.after 22).FetchesAt 1 ∧
      (m.after 22).Takes (.of (.loadImmediate .address) 12) := by
  intro m
  obtain ⟨p, program, -, -, begin, jump⟩ := assembled_lands assemble_jumps 64 ([] : List Device)
  have concrete : Program.ofSource jumps = .ok jumpsProgram := by rfl
  cases program.symm.trans concrete
  have marks : Marks jumpsProgram.symbols (linesOf jumps) "main" 1 := by
    rw [linesOf_jumps]
    refine ⟨[_], jumpsImage.body.take 1, ⟨_, ⟨_, rfl⟩, Line.item_eq_ok_iff.1 rfl⟩, ?_, rfl⟩
    exact Emits.iff_parts.2 ⟨[jumpsImage.body.take 1], .cons rfl .nil, rfl⟩
  have jumping : Jumps jumpsProgram (linesOf jumps) "main" 3 := by
    rw [linesOf_jumps]
    refine ⟨[_, _, _], _, ⟨4, "jump", [.label "main"], rfl⟩, jumpsImage.body.take 3, ⟨_, rfl⟩,
      Line.item_eq_ok_iff.1 rfl, rfl, rfl, ?_, rfl⟩
    exact Emits.iff_parts.2 ⟨[jumpsImage.body.take 1, (jumpsImage.body.drop 1).take 2],
      .cons rfl (.cons rfl .nil), rfl⟩
  have reaches : m.memory.Reaches 1 := ⟨by decide, by decide +kernel⟩
  have stands : (m.after 15).Stands 3 (.of .jump 4) :=
    ⟨by decide +kernel, by decide +kernel, by decide +kernel, ⟨by decide, by decide +kernel⟩,
      by decide +kernel, by decide +kernel⟩
  obtain ⟨-, -, first, -⟩ := begin 1 (.inl marks) (by decide) reaches
  obtain ⟨-, -, -, again⟩ := (jump 15 3 "main" (.of .jump 4) jumping rfl stands).2 1 marks
  obtain ⟨back, takes⟩ := again (by decide) reaches
  have held : (m.after 22).memory.Holds 1 (.of (.loadImmediate .address) 12) :=
    ⟨by decide +kernel, by decide +kernel⟩
  exact ⟨assemble_jumps, reaches, first, stands, back, (takes _ rfl held).1⟩

end Machine

end OneBus
