import OneBus.Device
import OneBus.Proofs.Consistency
import OneBus.Proofs.Fetching
import OneBus.Proofs.ImageBytes

/-!
Loading puts the bytes of an image into memory as they are, filled up with zeros or cut to its size;
so each instruction has its two cells behind the header, a file of the image that is long enough
loads as the image itself, and the first instruction to be fetched is what the bytes say at the
entry point, be it an instruction's place or not.
-/

namespace OneBus

namespace Word

/-- the words of bytes, cut to a number of them or filled up to it with zeros -/
def row (n : Nat) (bs : List UInt8) : List Word :=
  (ofByteList bs).take n ++ List.replicate (n - (ofByteList bs).length) 0

theorem getElem?_row (n i : Nat) (bs : List UInt8) :
    (row n bs)[i]? = if i < n then some ((ofByteList bs)[i]?.getD 0) else none :=
  getElem?_fill 0 n i (ofByteList bs)

theorem row_nil (n : Nat) : row n [] = List.replicate n 0 := by
  simp [row, ofByteList_nil]

theorem row_single (n : Nat) (low : UInt8) : row (n + 1) [low] = ofBytes low 0 :: row n [] := by
  simp [row, ofByteList_single, ofByteList_nil]

theorem row_cons (n : Nat) (low high : UInt8) (bs : List UInt8) :
    row (n + 1) (low :: high :: bs) = ofBytes low high :: row n bs := by
  simp [row, ofByteList_cons]

theorem bytes_row (n : Nat) (bs : List UInt8) : (row n bs).flatMap bytes = fitBytes (2 * n) bs := by
  induction n generalizing bs with
  | zero => simp [row, fitBytes_zero]
  | succ n ih =>
    have size : 2 * (n + 1) = 2 * n + 1 + 1 := by omega
    match bs with
    | low :: high :: bs =>
      rw [row_cons, List.flatMap_cons, ih, bytes_ofBytes, size, fitBytes_cons, fitBytes_cons]
      rfl
    | [low] =>
      rw [row_single, List.flatMap_cons, ih, bytes_ofBytes, size, fitBytes_cons, fitBytes_nil,
        fitBytes_nil]
      rfl
    | [] =>
      have first : row (n + 1) [] = ofBytes 0 0 :: row n [] := by
        rw [row_nil, row_nil]
        rfl
      rw [first, List.flatMap_cons, ih, bytes_ofBytes, fitBytes_nil, fitBytes_nil, size]
      rfl

theorem length_image (image : Image) :
    (ofByteList image.bytes).length = 2 * image.body.length + 2 := by
  have halves (body : List Instruction) :
      (body.flatMap Instruction.halves).length = 2 * body.length := by
    induction body with
    | nil => rfl
    | cons i body ih =>
      rw [List.flatMap_cons, List.length_append, ih, List.length_cons, Instruction.halves]
      simp only [List.length_cons, List.length_nil]
      omega
  rw [ofByteList_image, List.length_cons, List.length_cons, halves]

theorem getElem?_bytes {ws : List Word} {i : Nat} {w : Word} (found : ws[i]? = some w) :
    (ws.flatMap bytes)[2 * i]? = some w.low ∧ (ws.flatMap bytes)[2 * i + 1]? = some w.high := by
  induction ws generalizing i with
  | nil => simp at found
  | cons first rest ih =>
    cases i with
    | zero =>
      cases found
      exact ⟨rfl, rfl⟩
    | succ i =>
      have next : 2 * (i + 1) = 2 * i + 2 := by omega
      rw [List.getElem?_cons_succ] at found
      rw [List.flatMap_cons, next]
      exact ih found

end Word

namespace Memory

theorem cells_load (m : Memory) (bs : List UInt8) :
    (m.load bs).cells.toList = Word.row m.length bs := by
  have missing : m.length - min m.length (Word.ofByteList bs).length =
      m.length - (Word.ofByteList bs).length := by omega
  rw [load, Word.row, List.length_take, missing]

theorem bytes_load (m : Memory) (bs : List UInt8) : (m.load bs).bytes = fitBytes m.size bs := by
  rw [bytes, cells_load, Word.bytes_row, size]

theorem eq_of_bytes {m n : Memory} (same : m.bytes = n.bytes) : m = n := by
  have cells : m.cells.toList = n.cells.toList := by
    rw [← Word.ofByteList_bytes m.cells.toList, ← Word.ofByteList_bytes n.cells.toList]
    exact congrArg Word.ofByteList same
  cases m
  cases n
  exact congrArg Memory.mk (Array.toList_inj.1 cells)

theorem holds_load_getD {m : Memory} (image : Image) {index : Nat}
    (room : 2 + 2 * index + 1 < m.length) :
    (m.load image.bytes).Holds index (image.body[index]?.getD ⟨0, 0⟩) := by
  cases found : image.body[index]? with
  | some i => exact holds_load found room
  | none =>
    have words := Word.length_image image
    have behind : image.body.length ≤ index := List.getElem?_eq_none_iff.1 found
    have zero {k : Nat} (inside : k < m.length) (far : 2 + 2 * index ≤ k) :
        (m.load image.bytes).cells[k]? = some 0 := by
      rw [← Array.getElem?_toList, cells_load, Word.getElem?_row, if_pos inside,
        List.getElem?_eq_none (by omega)]
      rfl
    exact ⟨zero (by omega) (by omega), zero room (by omega)⟩

end Memory

namespace Image

/-- a file of the image that keeps what memory will hold is no different to memory -/
theorem fitBytes_file {image file : Image} {size capacity : Nat}
    (read : ofBytes (image.sizedBytes size) = .ok file)
    (long : min image.bytes.length capacity ≤ size) :
    fitBytes capacity file.bytes = image.sizedBytes capacity := by
  have length : (image.sizedBytes size).length = size := length_fitBytes size image.bytes
  have written := bytes_of_ofBytes read
  have filled : min (image.sizedBytes size).length capacity ≤
      4 * (((image.sizedBytes size).length + 3) / 4) := by omega
  rw [written, fitBytes_fitBytes filled]
  exact fitBytes_fitBytes long

end Image

namespace Machine

variable {δ : Type}

theorem memory_load (m : Machine δ) (image : Image) :
    (m.load image).memory = m.memory.load image.bytes := by
  rw [load]
  split <;> rfl

theorem counter_load (m : Machine δ) (image : Image) : (m.load image).counter = image.start := by
  rw [load]
  split <;> rfl

theorem control_load (m : Machine δ) (image : Image) : (m.load image).control = m.control := by
  rw [load]
  split <;> rfl

variable [Peripheral δ]

/-- the first three ticks come to the word `code`: nothing is decoded in the first two, and the
third decodes it, or ends the run if it is no opcode -/
structure Opens (m : Machine δ) (code : Word) : Prop where
  runs : (m.after 2).isRunning
  quiet : ∀ i < 2, (m.after i).decodes? = none
  decodes : (m.after 2).decodes? = Opcode.ofId? code
  faults : Opcode.ofId? code = none →
    (m.after 2).tick.2 = .error (.invalidOpcode code m.counter)

/-- the word at the program counter is the one that the bytes have there, and the ticks to come
decode it -/
def Follows (m : Machine δ) (bytes : List UInt8) : Prop :=
  ∀ unit, m.memory.cell? m.counter = some unit →
    ∃ low high, bytes[2 * unit]? = some low ∧ bytes[2 * unit + 1]? = some high ∧
      m.Opens (Word.ofBytes low high)

section

variable {m : Machine δ} (running : m.isRunning) (empty : m.queue = [])

include running empty

theorem opens {code : Word} (read : m.memory.read m.counter = .ok code) : m.Opens code := by
  have second := isRunning_second running empty
  have first : (m.after 1).isRunning := isRunning_of_tick second
  have pending : m.pending = fetch := by simp [Machine.pending, empty]
  obtain ⟨nothing, control⟩ := tick_plain (m := m) pending (by decide) first
  have queue : (m.after 1).queue = fetch.drop 1 := congrArg Control.queue control
  have still : (m.after 1).decodes? = none :=
    (tick_plain (pending_of_queue queue (by decide)) (by decide) second).1
  refine ⟨second, fun i early => ?_, (after_third running empty read).2.2,
    third_fails running empty read⟩
  obtain rfl | rfl : i = 0 ∨ i = 1 := by omega
  · exact nothing
  · exact still

theorem follows : m.Follows m.memory.bytes := by
  intro unit place
  obtain ⟨selects, inside⟩ := Memory.cell?_eq_some_iff.1 place
  have cell : m.memory.cells[unit]? = some m.memory.cells[unit] := Array.getElem?_eq_getElem inside
  have read : m.memory.read m.counter = .ok m.memory.cells[unit] := by
    rw [Memory.read, selects, Option.bind_some, cell]
  obtain ⟨low, high⟩ := Word.getElem?_bytes (Array.getElem?_toList.trans cell)
  refine ⟨_, _, low, high, ?_⟩
  rw [Word.ofBytes_low_high]
  exact opens running empty read

end

/-- loading an image, or a file of it that is long enough, puts its bytes into memory, so every
instruction is in its place, and a machine between two instructions decodes next what the bytes
have at the entry point -/
theorem load_follows (m : Machine δ) (image : Image) :
    let bytes := image.sizedBytes m.memory.size
    let n := m.load image
    n.memory.bytes = bytes ∧ n.memory.length = m.memory.length ∧
      (∀ i, 2 + 2 * i + 1 < m.memory.length →
        n.memory.Holds i (image.body[i]?.getD ⟨0, 0⟩)) ∧
      n.counter = image.start ∧
      (m.isRunning → m.queue = [] → n.Follows bytes) ∧
      (∀ size, 4 ≤ size → min image.bytes.length m.memory.size ≤ size →
        ∃ file, Image.ofBytes (image.sizedBytes size) = .ok file ∧
          (m.load file).memory = n.memory ∧ (m.load file).counter = n.counter ∧
          (m.isRunning → m.queue = [] → (m.load file).Follows bytes)) ∧
      ∀ memorySize (calls : List (Action δ)), m = calls.foldl act (new memorySize) →
        (m.phase = .idle ↔ m.queue = []) := by
  intro bytes n
  have follows (program : Image) (same : (m.load program).memory.bytes = bytes) :
      m.isRunning → m.queue = [] → (m.load program).Follows bytes := by
    intro running empty
    have control := control_load m program
    have running : (m.load program).isRunning :=
      (congrArg (· == Condition.running) (congrArg Control.condition control)).trans running
    have empty : (m.load program).queue = [] := (congrArg Control.queue control).trans empty
    exact same ▸ Machine.follows running empty
  have whole : n.memory.bytes = bytes := by
    rw [memory_load, Memory.bytes_load]
    rfl
  refine ⟨whole, ?_, ?_, counter_load m image, follows image whole, ?_, ?_⟩
  · rw [memory_load, Memory.length_load]
  · intro i room
    rw [memory_load]
    exact Memory.holds_load_getD image room
  · intro size header long
    obtain ⟨file, read, entry⟩ := image.exists_file header
    have filed : (m.load file).memory.bytes = bytes := by
      rw [memory_load, Memory.bytes_load]
      exact Image.fitBytes_file read long
    refine ⟨file, read, Memory.eq_of_bytes (filed.trans whole.symm), ?_, follows file filed⟩
    rw [counter_load, counter_load, Image.start, Image.start, entry]
  · rintro memorySize calls rfl
    exact idle_foldl_act (by simp [new]) calls

/-- an entry point on an operand that is the number of `halt`, in an image that neither memory nor
the file holds whole -/
theorem load_follows_odd :
    let m : Machine Device := [.attach .mute, .load ⟨0, [.of .sum]⟩, .step].foldl act (new 17)
    let image : Image := ⟨5, [⟨7, 1⟩, ⟨8, 46⟩, ⟨9, 2⟩, ⟨10, 3⟩]⟩
    m.isRunning ∧ m.phase = .idle ∧ m.ticks = 8 ∧
      (m.load image).memory.Holds 2 ⟨9, 2⟩ ∧ (m.load image).counter = 5 ∧
      ∃ file, Image.ofBytes (image.sizedBytes 17) = .ok file ∧ file ≠ image ∧
        (m.load file).memory = (m.load image).memory ∧
        (image.sizedBytes 16)[10]? = some 46 ∧
        ((m.load file).after 2).decodes? = some .halt := by
  intro m image
  have running : m.isRunning := by decide +kernel
  have idle : m.phase = .idle := by decide +kernel
  have length : m.memory.length = 8 := by decide +kernel
  obtain ⟨-, -, holds, counter, -, files, idles⟩ := load_follows m image
  have empty : m.queue = [] := (idles 17 _ rfl).1 idle
  have size : m.memory.size = 16 := congrArg (2 * ·) length
  rw [length] at holds
  rw [size] at files
  obtain ⟨file, read, memory, place, follows⟩ := files 17 (by decide) (by decide)
  have five : (m.load image).counter = 5 := counter
  have found : (m.load file).memory.cell? (m.load file).counter = some 5 := by
    rw [memory, place, five]
    decide +kernel
  obtain ⟨low, high, first, second, opens⟩ := follows running empty 5 found
  obtain rfl : low = 46 := Option.some.inj (first.symm.trans (by decide +kernel))
  obtain rfl : high = 0 := Option.some.inj (second.symm.trans (by decide +kernel))
  refine ⟨running, idle, by decide +kernel, holds 2 (by decide), five, file, read, ?_, memory,
    first, opens.decodes⟩
  rintro rfl
  exact absurd read (by decide +kernel)

end Machine
end OneBus
