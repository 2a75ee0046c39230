import Mathlib.Data.List.Infix
import OneBus.Device
import OneBus.Proofs.Control
import OneBus.Proofs.Transfer

/-!
What is asserted over a whole run, and when. From a freshly loaded machine on, the words asserted
and the words pending together are the fetch and the words of one opcode after another, with at
most one fetch that has not come to its opcode yet. `Place` says so for one state, `place_tick`
keeps it through a tick, and the shapes of the queue and the timing of instructions are read off
it.
-/

namespace OneBus

/-- the words that opcodes take when they are executed in turn -/
def script (ops : List Opcode) : List ControlWord :=
  ops.flatMap fun op => fetch ++ op.microprogram.words

/-- the ticks that an opcode takes, fetch included -/
def Opcode.cost (op : Opcode) : Nat := 6 + op.microprogram.words.length

theorem script_append (ops : List Opcode) (op : Opcode) :
    script (ops ++ [op]) = script ops ++ (fetch ++ op.microprogram.words) := by
  simp [script]

/-- the ticks that opcodes take when they are executed in turn -/
def duration (ops : List Opcode) : Nat := ops.foldr (fun op ticks => op.cost + ticks) 0

theorem length_script (ops : List Opcode) : (script ops).length = duration ops := by
  induction ops with
  | nil => rfl
  | cons op ops ih =>
    change (fetch ++ op.microprogram.words ++ script ops).length = op.cost + duration ops
    rw [List.length_append, List.length_append, ih]
    rfl

theorem duration_append (ops : List Opcode) (op : Opcode) :
    duration (ops ++ [op]) = duration ops + op.cost := by
  rw [← length_script, script_append, List.length_append, length_script, List.length_append]
  rfl

/-- behind the third word of the fetch no word decodes until the next fetch -/
theorem plain_of_mem_drop {op : Opcode} {w : ControlWord}
    (h : w ∈ fetch.drop 3 ++ op.microprogram.words) : w.contains .instructionIn = false := by
  have all : ∀ o ∈ Opcode.all, ∀ w ∈ fetch.drop 3 ++ o.microprogram.words,
      w.contains .instructionIn = false := by decide
  exact all op op.mem_all w h

theorem plain_of_split {op : Opcode} {spent rest : List ControlWord} {w : ControlWord}
    (decoded : 3 ≤ spent.length) (split : fetch ++ op.microprogram.words = spent ++ w :: rest) :
    w.contains .instructionIn = false := by
  have tail : fetch.drop 3 ++ op.microprogram.words = spent.drop 3 ++ w :: rest := by
    rw [← List.drop_append_of_le_length decoded, ← split]
    rfl
  refine plain_of_mem_drop (?_ : w ∈ fetch.drop 3 ++ op.microprogram.words)
  rw [tail]
  exact List.mem_append_right _ List.mem_cons_self

/-- where the sequencer stands, with the opcodes decoded and the words asserted so far -/
inductive Place (c : Control) : List Opcode → List ControlWord → Prop
  | idle {past : List Opcode} (queue : c.queue = []) (phase : c.phase = .idle) :
    Place c past (script past)
  | opening {past : List Opcode} (j : Nat) (lower : 1 ≤ j) (upper : j ≤ 2)
      (queue : c.queue = fetch.drop j) (phase : c.phase = .executing) :
    Place c past (script past ++ fetch.take j)
  | within {past : List Opcode} (op : Opcode) (spent : List ControlWord)
      (decoded : 3 ≤ spent.length) (split : fetch ++ op.microprogram.words = spent ++ c.queue)
      (pending : c.queue ≠ []) (phase : c.phase = .executing) (current : c.current = some op)
      (sign : c.operation = op.microprogram.operation) :
    Place c (past ++ [op]) (script past ++ spent)

theorem Place.order {c : Control} {past : List Opcode} {words : List ControlWord}
    (h : Place c past words) :
    words ++ c.queue = script past ∨ words ++ c.queue = script past ++ fetch := by
  cases h with
  | idle queue phase => exact .inl (by rw [queue, List.append_nil])
  | opening j lower upper queue phase =>
    exact .inr (by rw [queue, List.append_assoc, List.take_append_drop])
  | within op spent decoded split pending phase current sign =>
    exact .inl (by rw [script_append, split, List.append_assoc])

theorem Place.words_eq {c : Control} {past : List Opcode} {words : List ControlWord}
    (h : Place c past words) (idle : c.phase = .idle) : words = script past := by
  cases h with
  | idle => rfl
  | opening j lower upper queue phase => rw [phase] at idle; contradiction
  | within op spent decoded split pending phase current sign => rw [phase] at idle; contradiction

theorem Place.queue_of_idle {c : Control} {past : List Opcode} {words : List ControlWord}
    (h : Place c past words) (idle : c.phase = .idle) : c.queue = [] := by
  cases h with
  | idle queue phase => exact queue
  | opening j lower upper queue phase => rw [phase] at idle; contradiction
  | within op spent decoded split pending phase current sign => rw [phase] at idle; contradiction

namespace Machine

variable {δ : Type}

/-- loaded with an image, and with devices on its ports from 0 on -/
def boot (image : Image) (memorySize : Nat) (devices : List δ) : Machine δ :=
  devices.foldl attach (ofImage image memorySize)

theorem control_boot (image : Image) (memorySize : Nat) (devices : List δ) :
    (boot image memorySize devices).control = ⟨[], .add, .idle, .running, none, 0, 0⟩ := by
  have attached (m : Machine δ) : (devices.foldl attach m).control = m.control := by
    induction devices generalizing m with
    | nil => rfl
    | cons d rest ih => exact ih (m.attach d)
  rw [boot, attached, ofImage, load]
  split <;> rfl

theorem idle_boot (image : Image) (memorySize : Nat) (devices : List δ) :
    (boot image memorySize devices).queue = [] ∧ (boot image memorySize devices).phase = .idle :=
  ⟨congrArg Control.queue (control_boot image memorySize devices),
    congrArg Control.phase (control_boot image memorySize devices)⟩

theorem word_of_pending {m : Machine δ} {w : ControlWord} {rest : List ControlWord}
    (pending : m.pending = w :: rest) : m.word = w := by
  rw [word, pending]
  rfl

theorem pending_of_queue {m : Machine δ} {queue : List ControlWord} (h : m.queue = queue)
    (some : queue ≠ []) : m.pending = queue := by
  simp [pending, h, some]

theorem place_decoding {m : Machine δ} {past : List Opcode} {words : List ControlWord}
    (h : Place m.control past words) (decodes : m.word.contains .instructionIn) :
    words = script past ++ fetch.take 2 := by
  cases h with
  | idle queue phase =>
    have queue : m.queue = [] := queue
    have first : m.word = fetch.headD .empty := by simp [word, Machine.pending, queue]
    rw [first] at decodes
    exact absurd decodes (by decide)
  | opening j lower upper queue phase =>
    obtain rfl | rfl : j = 1 ∨ j = 2 := by omega
    · rw [word_of_pending (pending_of_queue queue (by decide))] at decodes
      exact absurd decodes (by decide)
    · rfl
  | within op spent decoded split pending phase current sign =>
    obtain ⟨w, rest, queue⟩ := List.exists_cons_of_ne_nil pending
    rw [queue] at split
    have pending : m.pending = w :: rest := pending_of_queue queue (List.cons_ne_nil w rest)
    rw [word_of_pending pending, plain_of_split decoded split] at decodes
    contradiction

variable [Peripheral δ]

/-- the machine after so many ticks -/
def after (m : Machine δ) : Nat → Machine δ
  | 0 => m
  | n + 1 => (m.after n).tick.1

/-- the opcodes that the first ticks decode -/
def history (m : Machine δ) (n : Nat) : List Opcode :=
  (List.range n).filterMap fun i => (m.after i).decodes?

/-- the word that a tick asserts, unless the machine has stopped -/
def asserts? (m : Machine δ) : Option ControlWord := if m.isRunning then some m.word else none

/-- the words that the first ticks assert -/
def asserted (m : Machine δ) (n : Nat) : List ControlWord :=
  (List.range n).filterMap fun i => (m.after i).asserts?

theorem history_succ (m : Machine δ) (n : Nat) :
    m.history (n + 1) = m.history n ++ (m.after n).decodes?.toList := by
  rw [history, List.range_succ, List.filterMap_append, ← history, List.filterMap_cons]
  cases (m.after n).decodes? <;> rfl

theorem asserted_succ (m : Machine δ) (n : Nat) :
    m.asserted (n + 1) = m.asserted n ++ (m.after n).asserts?.toList := by
  rw [asserted, List.range_succ, List.filterMap_append, ← asserted, List.filterMap_cons]
  cases (m.after n).asserts? <;> rfl

section

variable {m : Machine δ} {w : ControlWord} {rest : List ControlWord}

theorem tick_plain (pending : m.pending = w :: rest) (plain : w.contains .instructionIn = false)
    (runs : m.tick.1.isRunning) :
    m.decodes? = none ∧ m.tick.1.control = { m.control with
      queue := rest
      phase := if rest.isEmpty then .idle else .executing
      ticks := m.ticks + 1 } := by
  have control := (tick_control runs).2
  rw [word_of_pending pending, plain] at control
  refine ⟨control.1, control.2.trans ?_⟩
  have rest : m.begun.control = { m.control with queue := rest, phase := .executing } := by
    rw [begun, pending]
    rfl
  rw [rest]
  rfl

theorem tick_decoding (pending : m.pending = w :: rest) (decodes : w.contains .instructionIn)
    (runs : m.tick.1.isRunning) :
    ∃ op, m.decodes? = some op ∧ m.tick.1.control = ({ m.control with
      queue := rest
      phase := .executing }.decoded op).settled := by
  have control := (tick_control runs).2
  rw [word_of_pending pending, if_pos decodes] at control
  obtain ⟨op, decoded, control⟩ := control
  refine ⟨op, decoded, control.trans ?_⟩
  rw [begun, pending]
  rfl

end

theorem place_tick {m : Machine δ} {past : List Opcode} {words : List ControlWord}
    (h : Place m.control past words) (runs : m.tick.1.isRunning) :
    Place m.tick.1.control (past ++ m.decodes?.toList) (words ++ [m.word]) := by
  cases h with
  | idle queue phase =>
    have queue : m.queue = [] := queue
    have pending : m.pending = fetch := by simp [Machine.pending, queue]
    obtain ⟨none, control⟩ := tick_plain pending (by decide) runs
    rw [none, control, word_of_pending pending, Option.toList_none, List.append_nil]
    exact .opening 1 (by omega) (by omega) rfl rfl
  | opening j lower upper queue phase =>
    obtain rfl | rfl : j = 1 ∨ j = 2 := by omega
    · have pending : m.pending = fetch.drop 1 := pending_of_queue queue (by decide)
      obtain ⟨none, control⟩ := tick_plain pending (by decide) runs
      rw [none, control, word_of_pending pending, Option.toList_none, List.append_nil,
        List.append_assoc]
      exact .opening 2 (by omega) (by omega) rfl rfl
    · have pending : m.pending = fetch.drop 2 := pending_of_queue queue (by decide)
      obtain ⟨op, some, control⟩ := tick_decoding pending (by decide) runs
      rw [some, control, word_of_pending pending, List.append_assoc]
      exact .within op (fetch.take 3) (by decide) rfl (by simp [Control.decoded, Control.settled])
        rfl rfl rfl
  | within op spent decoded split pending phase current sign =>
    obtain ⟨w, rest, queue⟩ := List.exists_cons_of_ne_nil pending
    rw [queue] at split
    have pending : m.pending = w :: rest := pending_of_queue queue (List.cons_ne_nil w rest)
    obtain ⟨none, control⟩ := tick_plain pending (plain_of_split decoded split) runs
    rw [none, control, word_of_pending pending, Option.toList_none, List.append_nil,
      List.append_assoc]
    have split : fetch ++ op.microprogram.words = spent ++ [w] ++ rest := by simp [split]
    -- the last word of an instruction leaves the sequencer between two of them
    cases rest with
    | nil =>
      rw [List.append_nil] at split
      rw [← split, ← script_append]
      exact .idle rfl rfl
    | cons next rest =>
      have further : 3 ≤ (spent ++ [w]).length := by
        rw [List.length_append]
        omega
      exact .within op (spent ++ [w]) further split (List.cons_ne_nil next rest) rfl current sign

theorem isRunning_of_after {m : Machine δ} {n : Nat} (runs : (m.after (n + 1)).isRunning) :
    (m.after n).isRunning :=
  isRunning_of_tick runs

theorem isRunning_of_le {m : Machine δ} {i n : Nat} (h : i ≤ n) (runs : (m.after n).isRunning) :
    (m.after i).isRunning := by
  induction h with
  | refl => exact runs
  | step _ ih => exact ih (isRunning_of_after runs)

theorem place_after {m : Machine δ} (queue : m.queue = []) (phase : m.phase = .idle) {n : Nat}
    (runs : (m.after n).isRunning) : Place (m.after n).control (m.history n) (m.asserted n) := by
  induction n with
  | zero => exact .idle queue phase
  | succ n ih =>
    have running := isRunning_of_after runs
    have asserts : (m.after n).asserts? = some (m.after n).word := if_pos running
    rw [history_succ, asserted_succ, asserts]
    exact place_tick (ih running) runs

theorem counters_tick {m : Machine δ} (runs : m.tick.1.isRunning) :
    m.tick.1.ticks = m.ticks + 1 ∧
      m.tick.1.instructions = m.instructions + m.decodes?.toList.length := by
  have control := (tick_control runs).2
  cases decodes : m.word.contains .instructionIn with
  | false =>
    rw [decodes] at control
    obtain ⟨none, control⟩ := control
    rw [none]
    exact ⟨congrArg Control.ticks control, congrArg Control.instructions control⟩
  | true =>
    rw [decodes] at control
    obtain ⟨op, some, control⟩ := control
    rw [some]
    exact ⟨congrArg Control.ticks control, congrArg Control.instructions control⟩

theorem counters_after (m : Machine δ) {n : Nat} (runs : (m.after n).isRunning) :
    (m.after n).ticks = m.ticks + n ∧ (m.asserted n).length = n ∧
      (m.after n).instructions = m.instructions + (m.history n).length := by
  induction n with
  | zero => exact ⟨rfl, rfl, rfl⟩
  | succ n ih =>
    have running := isRunning_of_after runs
    obtain ⟨ticks, words, instructions⟩ := ih running
    obtain ⟨one, decoded⟩ : (m.after (n + 1)).ticks = _ ∧ (m.after (n + 1)).instructions = _ :=
      counters_tick runs
    have asserts : (m.after n).asserts? = some (m.after n).word := if_pos running
    rw [history_succ, asserted_succ, asserts, one, decoded, ticks, instructions]
    simp [words, Nat.add_assoc]

theorem word_of_decodes {m : Machine δ} {op : Opcode} (decodes : m.decodes? = some op) :
    m.isRunning ∧ m.word.contains .instructionIn := by
  unfold decodes? at decodes
  by_cases running : m.isRunning
  · refine ⟨running, ?_⟩
    rw [tick_running running] at decodes
    cases h : (m.begun.note (.tick m.ticks m.word)).assert m.word with
    | error f => rw [h] at decodes; cases decodes
    | ok n =>
      rw [h] at decodes
      by_contra plain
      simp [conclude, plain] at decodes
  · rw [tick_stopped running] at decodes
    cases decodes

theorem history_between {m : Machine δ} {i : Nat} (k : Nat)
    (none : ∀ l, i ≤ l → l < i + k → (m.after l).decodes? = none) :
    m.history (i + k) = m.history i := by
  induction k with
  | zero => rfl
  | succ k ih =>
    rw [← Nat.add_assoc, history_succ, none (i + k) (by omega) (by omega),
      ih fun l lower upper => none l lower (by omega)]
    exact List.append_nil _

theorem decoding_tick {m : Machine δ} (queue : m.queue = []) (phase : m.phase = .idle) {n : Nat}
    {op : Opcode} (decodes : (m.after n).decodes? = some op) :
    n = duration (m.history n) + 2 := by
  obtain ⟨runs, decoding⟩ := word_of_decodes decodes
  have words := place_decoding (place_after queue phase runs) decoding
  have count := (counters_after m runs).2.1
  rw [words, List.length_append, length_script] at count
  exact count.symm

end Machine

/-- the four states of the queue -/
inductive Stage
  | idle | opening | closing | executing
  deriving DecidableEq

namespace Stage

variable {δ : Type}

def Describes (m : Machine δ) : Stage → Prop
  | idle => m.phase = .idle ∧ m.queue = []
  | opening => m.phase = .executing ∧ ∃ j, 1 ≤ j ∧ j ≤ 2 ∧ m.queue = fetch.drop j
  | closing => m.phase = .executing ∧ ∃ op, m.current = some op ∧
      m.operation = op.microprogram.operation ∧
      ∃ j, 3 ≤ j ∧ j ≤ 5 ∧ m.queue = fetch.drop j ++ op.microprogram.words
  | executing => m.phase = .executing ∧ ∃ op, m.current = some op ∧
      m.operation = op.microprogram.operation ∧
      m.queue ≠ [] ∧ m.queue <:+ op.microprogram.words

/-- what is left of the fetch in a queue tells the stage -/
def ofQueue (queue : List ControlWord) : Stage :=
  if queue = [] then idle
  else if queue.any (·.contains .instructionIn) then opening
  else if queue.contains (.ofList [.addressBackupOut, .addressIn]) then closing
  else executing

theorem ofQueue_closing (op : Opcode) {j : Nat} (lower : 3 ≤ j) (upper : j ≤ 5) :
    ofQueue (fetch.drop j ++ op.microprogram.words) = closing := by
  have all : ∀ o ∈ Opcode.all, ∀ i ∈ [3, 4, 5],
      ofQueue (fetch.drop i ++ o.microprogram.words) = closing := by decide
  have place : j ∈ [3, 4, 5] := by
    simp only [List.mem_cons, List.not_mem_nil, or_false]
    omega
  exact all op op.mem_all j place

/-- no microprogram has a word of the fetch that would confuse it with one -/
theorem ofQueue_executing (op : Opcode) {queue : List ControlWord} (some : queue ≠ [])
    (tail : queue <:+ op.microprogram.words) : ofQueue queue = executing := by
  have all : ∀ o ∈ Opcode.all, ∀ t ∈ o.microprogram.words.tails,
      t ≠ [] → ofQueue t = executing := by decide
  exact all op op.mem_all queue ((List.mem_tails _ _).2 tail) some

theorem Describes.eq {m : Machine δ} {s : Stage} (h : s.Describes m) : s = ofQueue m.queue := by
  cases s with
  | idle =>
    rw [h.2]
    rfl
  | opening =>
    obtain ⟨-, j, lower, upper, queue⟩ := h
    obtain rfl | rfl : j = 1 ∨ j = 2 := by omega
    · rw [queue]; decide
    · rw [queue]; decide
  | closing =>
    obtain ⟨-, op, -, -, j, lower, upper, queue⟩ := h
    rw [queue, ofQueue_closing op lower upper]
  | executing =>
    obtain ⟨-, op, -, -, some, tail⟩ := h
    exact (ofQueue_executing op some tail).symm

end Stage

namespace Machine

variable {δ : Type}

theorem exists_stage {m : Machine δ} {past : List Opcode} {words : List ControlWord}
    (h : Place m.control past words) : ∃ s : Stage, s.Describes m := by
  cases h with
  | idle queue phase => exact ⟨.idle, phase, queue⟩
  | opening j lower upper queue phase => exact ⟨.opening, phase, j, lower, upper, queue⟩
  | within op spent decoded split pending phase current sign =>
    have left : m.queue = (fetch ++ op.microprogram.words).drop spent.length := by
      rw [split, List.drop_left]
      rfl
    by_cases fetching : spent.length ≤ 5
    · refine ⟨.closing, phase, op, current, sign, spent.length, decoded, fetching, ?_⟩
      rw [left, List.drop_append_of_le_length (by rw [fetch_length]; omega)]
    · refine ⟨.executing, phase, op, current, sign, pending, ?_⟩
      rw [left, List.drop_append, List.drop_of_length_le (by rw [fetch_length]; omega)]
      exact List.drop_suffix _ _

variable [Peripheral δ]

/-- a run keeps to the order of the words and to the time that each instruction takes -/
structure Orderly (m : Machine δ) : Prop where
  stage (n : Nat) (runs : (m.after n).isRunning) : ∃! s : Stage, s.Describes (m.after n)
  order (n : Nat) (runs : (m.after n).isRunning) :
    m.asserted n ++ (m.after n).queue = script (m.history n) ∨
      m.asserted n ++ (m.after n).queue = script (m.history n) ++ fetch
  boundary (n : Nat) (runs : (m.after n).isRunning) (idle : (m.after n).phase = .idle) :
    m.asserted n = script (m.history n) ∧
      (m.after n).ticks = duration (m.history n)
  count (n : Nat) (runs : (m.after n).isRunning) :
    (m.after n).ticks = n ∧ (m.after n).instructions = (m.history n).length
  spacing (i j : Nat) (earlier : i < j) (op next : Opcode) (first : (m.after i).decodes? = some op)
    (second : (m.after j).decodes? = some next)
    (none : ∀ l, i < l → l < j → (m.after l).decodes? = none) : j = i + op.cost

/-- every run from a freshly loaded machine -/
theorem boot_orderly (image : Image) (memorySize : Nat) (devices : List δ) :
    (boot image memorySize devices).Orderly := by
  have start := control_boot image memorySize devices
  obtain ⟨queue, phase⟩ := idle_boot image memorySize devices
  have ticks : (boot image memorySize devices).ticks = 0 := congrArg Control.ticks start
  have instructions : (boot image memorySize devices).instructions = 0 :=
    congrArg Control.instructions start
  generalize boot image memorySize devices = m at *
  refine ⟨?_, ?_, ?_, ?_, ?_⟩
  · intro n runs
    obtain ⟨s, h⟩ := exists_stage (place_after queue phase runs)
    exact ⟨s, h, fun t ht => ht.eq.trans h.eq.symm⟩
  · intro n runs
    exact (place_after queue phase runs).order
  · intro n runs idle
    have words := (place_after queue phase runs).words_eq idle
    have count := counters_after m runs
    refine ⟨words, ?_⟩
    rw [count.1, ticks, ← length_script, ← words, count.2.1, Nat.zero_add]
  · intro n runs
    have count := counters_after m runs
    exact ⟨by rw [count.1, ticks, Nat.zero_add], by rw [count.2.2, instructions, Nat.zero_add]⟩
  · intro i j earlier op next first second none
    have one := decoding_tick queue phase first
    have two := decoding_tick queue phase second
    obtain ⟨k, rfl⟩ : ∃ k, j = i + 1 + k := ⟨j - (i + 1), by omega⟩
    rw [history_between k fun l lower upper => none l (by omega) upper, history_succ, first] at two
    rw [Option.toList_some, duration_append] at two
    omega

/-- two instructions, one behind the other -/
theorem orderly_add_halt :
    let m : Machine Device := boot ⟨0, [.of .add 4, .of .halt]⟩ 16 []
    (m.after 9).isRunning ∧ (m.after 9).phase = .idle ∧
      (∃! s : Stage, s.Describes (m.after 9)) ∧
      (m.after 9).ticks = duration (m.history 9) ∧
      (m.after 9).instructions = (m.history 9).length ∧ 11 = 2 + Opcode.cost .add := by
  intro m
  have orderly : m.Orderly := boot_orderly _ _ _
  have runs : (m.after 9).isRunning := by decide
  have idle : (m.after 9).phase = .idle := by decide
  have none : ∀ l < 11, 2 < l → (m.after l).decodes? = none := by decide
  exact ⟨runs, idle, orderly.stage 9 runs, (orderly.boundary 9 runs idle).2,
    (orderly.count 9 runs).2,
    orderly.spacing 2 11 (by decide) .add .halt (by decide) (by decide) fun l lower upper =>
      none l upper lower⟩

end Machine

end OneBus
