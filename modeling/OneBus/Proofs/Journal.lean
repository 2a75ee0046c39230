import OneBus.Device
import OneBus.Proofs.Advance
import OneBus.Proofs.Lines
import OneBus.Proofs.Phrasing
import OneBus.Proofs.Transfer

/-!
The journal of a machine tells its ticks. A tick that is executed writes its number and its word
before anything else; a word that decodes writes the opcode at once, whatever becomes of the rest of
the word; and the tick that ends the machine writes last, with the number of ticks that the machine
has then. Nothing else writes such a record, so the records of a machine are those of the ticks that
it has executed, one after the other: `Traced`.
-/

namespace OneBus

namespace Event

def tick? : Event → Option (Nat × ControlWord)
  | tick number word => some (number, word)
  | _ => none

def decoded? : Event → Option (Word × Opcode)
  | decoded address op => some (address, op)
  | _ => none

/-- the number of ticks behind which the machine has halted or failed -/
def stopped? : Event → Option Nat
  | halted ticks | faulted ticks _ => some ticks
  | _ => none

/-- an event that is the end of the machine -/
def stop? (e : Event) : Option Event := e.stopped?.map fun _ => e

/-- what only ticks write -/
def isRecord : Event → Bool
  | tick .. | decoded .. | halted .. | faulted .. => true
  | _ => false

end Event

namespace Machine

variable {δ : Type}

def records (m : Machine δ) : List Event := m.journal.toList.filter Event.isRecord

theorem records_note (m : Machine δ) {e : Event} (record : e.isRecord) :
    (m.note e).records = m.records ++ [e] := by
  simp [records, note, record]

variable [Peripheral δ]

/-- what the next tick decodes, with the address that it is at -/
def decoding? (m : Machine δ) : Option (Word × Opcode) :=
  if m.tick.1.instructions = m.instructions then none
  else m.tick.1.current.map (m.registers.address, ·)

/-- how the machine ends with the next tick -/
def ending? (m : Machine δ) : Option Event :=
  match m.tick.2 with
  | .ok _ => if m.tick.1.isRunning then none else some (.halted m.tick.1.ticks)
  | .error e => some (.faulted m.tick.1.ticks e)

theorem stopped?_of_ending? {m : Machine δ} {e : Event} (ends : m.ending? = some e) :
    e.stopped? = some m.tick.1.ticks := by
  unfold ending? at ends
  split at ends
  · obtain ⟨-, ended⟩ := Option.ite_none_left_eq_some.1 ends
    cases ended
    rfl
  · cases ends
    rfl

/-- the records of the next tick -/
def report (m : Machine δ) : List Event :=
  .tick m.ticks m.word ::
    (m.decoding?.map fun d => Event.decoded d.1 d.2).toList ++ m.ending?.toList

/-- in the middle of a tick of `m` that has decoded `op?` -/
structure Within (m : Machine δ) (op? : Option Opcode) (n : Machine δ) : Prop where
  records : n.records = m.records ++
    .tick m.ticks m.word :: (op?.map (Event.decoded m.registers.address)).toList
  ticks : n.ticks = m.ticks
  runs : n.isRunning
  instructions : n.instructions = m.instructions + op?.toList.length
  current (op : Opcode) (decodes : op? = some op) : n.current = some op
  asserted (decodes : op?.isSome) : m.word.contains .instructionIn

namespace Within

variable {m n : Machine δ} {op? : Option Opcode}

omit [Peripheral δ] in
theorem start (runs : m.isRunning) : Within m none (m.begun.note (.tick m.ticks m.word)) where
  records := records_note m.begun rfl
  ticks := rfl
  runs := runs
  instructions := rfl
  current _ decodes := by cases decodes
  asserted decodes := by cases decodes

omit [Peripheral δ] in
theorem aside (h : Within m op? n) {k : Machine δ} (records : k.records = n.records)
    (control : k.control = n.control) : Within m op? k where
  records := records.trans h.records
  ticks := (congrArg Control.ticks control).trans h.ticks
  runs := beq_iff_eq.2 ((congrArg Control.condition control).trans (beq_iff_eq.1 h.runs))
  instructions := (congrArg Control.instructions control).trans h.instructions
  current op decodes := (congrArg Control.current control).trans (h.current op decodes)
  asserted := h.asserted

theorem drive (h : Within m op? n) (s : Signal) : Ends (Within m op?) (Within m op?) (n.drive s) :=
  Ends.drive s (fun _ => h.aside rfl rfl) fun _ _ _ _ => h.aside rfl rfl

theorem latch (h : Within m op? n) (a : Word) {s : Signal} (plain : s ≠ .instructionIn) :
    Ends (Within m op?) (Within m op?) (n.latch a s) := by
  refine Ends.latch a s h (fun _ _ => h.aside rfl rfl) (fun ports notes _ _ => ?_)
    (fun _ _ => h.aside rfl rfl) fun _ _ decodes => absurd decodes plain
  have remarks : (notes.map Event.remark).filter Event.isRecord = [] := by
    simp [List.filter_map, Function.comp_def, Event.isRecord]
  refine h.aside ?_ rfl
  rw [Machine.records, Machine.records, Array.toList_appendList, List.filter_append, remarks,
    List.append_nil]

/-- the latch that decodes comes first -/
theorem decode (h : Within m none n) (asserted : m.word.contains .instructionIn) :
    Ends (fun k => ∃ op?, Within m op? k) (fun k => ∃ op?, Within m op? k)
      (n.latch m.registers.address .instructionIn) := by
  have taken : Within m none (n.latchRegister .instruction) := h.aside rfl rfl
  change Ends _ _ ((n.latchRegister .instruction).decode m.registers.address)
  generalize n.latchRegister .instruction = k at taken
  cases known : Opcode.ofId? k.registers.instruction with
  | none =>
    rw [decode_unknown known]
    exact ⟨none, taken⟩
  | some op =>
    rw [decode_known op known]
    refine ⟨some op, ?_, taken.ticks, taken.runs, ?_, fun _ same => same, fun _ => asserted⟩
    · exact (records_note k rfl).trans (by rw [taken.records, List.append_assoc]; rfl)
    · exact congrArg (· + 1) taken.instructions

end Within

/-- the lines of the next word, up to the last latch -/
def lines (m : Machine δ) : Except (Failure δ) (Machine δ) :=
  (m.word.unitDrivers ++ m.word.registerDrivers).foldlM drive
      (m.begun.note (.tick m.ticks m.word)) >>=
    m.word.latchers.foldlM (latch m.registers.address)

theorem tick_eq_lines {m : Machine δ} (runs : m.isRunning) :
    m.tick = conclude m.word (m.lines >>= fun n => .ok (n.finish m.word)) := by
  rw [tick_running runs, lines, bind_assoc]
  rfl

theorem within_lines {m : Machine δ} (runs : m.isRunning) :
    Ends (fun n => ∃ op?, Within m op? n) (fun n => ∃ op?, Within m op? n) m.lines := by
  have drivers := Ends.foldlM (m.word.unitDrivers ++ m.word.registerDrivers)
    (fun n s (h : Within m none n) => h.drive s) (Within.start runs)
  refine Ends.bind (drivers.imp (fun _ h => h) fun n h => ⟨none, h⟩) fun n h => ?_
  rw [ControlWord.latchers_eq_append, List.append_assoc, List.foldlM_append]
  refine Ends.bind ?_ fun n h => Ends.foldlM_mem _ (fun n s mem h => ?_) h
  · cases asserted : m.word.contains .instructionIn with
    | false =>
      rw [List.filter_cons_of_neg (by simp [asserted])]
      exact ⟨none, h⟩
    | true =>
      rw [List.filter_cons_of_pos asserted, List.filter_nil, List.foldlM_cons]
      exact (h.decode asserted).bind fun n h => h
  · obtain ⟨op?, h⟩ := h
    have plain : s ≠ .instructionIn := by
      rintro rfl
      simp [ControlWord.plainLatches] at mem
    exact (h.latch m.registers.address plain).imp (fun _ h => ⟨op?, h⟩) fun _ h => ⟨op?, h⟩

theorem finish_cases (n : Machine δ) (w : ControlWord) :
    let k := n.finish w
    (k.instructions = n.instructions ∧ k.current = n.current ∧ k.ticks = n.ticks) ∧
      (k.records = n.records ∧ k.isRunning = n.isRunning ∨
        k.records = n.records ++ [.halted (n.ticks + 1)] ∧ k.isRunning = false) := by
  have counted (k : Machine δ) (same : k.records = n.records) (ticks : k.ticks = n.ticks) :
      ((k.note (.halted (k.ticks + 1))).stop .halted).records =
        n.records ++ [.halted (n.ticks + 1)] := by
    rw [← same, ← ticks]
    exact records_note k rfl
  unfold finish
  cases w.contains .halt with
  | true =>
    cases w.contains .programCounterIncrement <;>
      exact ⟨⟨rfl, rfl, rfl⟩, .inr ⟨counted _ rfl rfl, rfl⟩⟩
  | false =>
    cases w.contains .programCounterIncrement <;> exact ⟨⟨rfl, rfl, rfl⟩, .inl ⟨rfl, rfl⟩⟩

/-- what a tick has done to the records and the counters, and whether it has stopped the machine -/
structure Reported (m n : Machine δ) : Prop where
  records : n.records = m.records ++ m.report
  instructions : n.instructions = m.instructions + m.decoding?.toList.length
  asserted (decodes : m.decoding?.isSome) : m.word.contains .instructionIn
  runs : n.isRunning ↔ m.ending? = none

section

variable {m n : Machine δ} {op? : Option Opcode}

theorem Within.decoding?_eq (h : Within m op? n)
    (instructions : m.tick.1.instructions = n.instructions)
    (current : m.tick.1.current = n.current) :
    m.decoding? = op?.map (m.registers.address, ·) := by
  rw [decoding?, instructions, h.instructions, current]
  cases op? with
  | none => exact if_pos rfl
  | some op =>
    rw [if_neg (by simp), h.current op rfl]

/-- `own` is what the tick itself has written behind its lines -/
theorem Within.reported (h : Within m op? n) {own : List Event}
    (instructions : m.tick.1.instructions = n.instructions)
    (current : m.tick.1.current = n.current) (records : m.tick.1.records = n.records ++ own)
    (ending : m.ending?.toList = own) (runs : m.tick.1.isRunning ↔ m.ending? = none) :
    Reported m m.tick.1 := by
  have decoding := h.decoding?_eq instructions current
  refine ⟨?_, ?_, fun decodes => h.asserted ?_, runs⟩
  · rw [records, h.records, report, decoding, ending, List.append_assoc, Option.map_map]
    rfl
  · rw [instructions, h.instructions, decoding]
    cases op? <;> rfl
  · rw [decoding] at decodes
    simpa using decodes

theorem reported (runs : m.isRunning) : Reported m m.tick.1 := by
  have within := within_lines runs
  have ticked := tick_eq_lines runs
  cases outcome : m.lines with
  | error f =>
    rw [outcome] at within ticked
    obtain ⟨op?, h⟩ := within
    have ticked : m.tick = (f.machine.settle.fault f.error, .error f.error) := ticked
    have ending : m.ending? = some (.faulted (f.machine.ticks + 1) f.error) := by
      rw [ending?, ticked]
      rfl
    have counted : m.tick.1.instructions = f.machine.instructions := by
      rw [ticked]
      rfl
    have latest : m.tick.1.current = f.machine.current := by
      rw [ticked]
      rfl
    have records : m.tick.1.records =
        f.machine.records ++ [.faulted (f.machine.ticks + 1) f.error] := by
      rw [ticked]
      exact records_note f.machine.settle rfl
    refine h.reported counted latest records (by rw [ending]; rfl) ?_
    rw [ending, ticked]
    simp [fault, stop, isRunning]
  | ok n =>
    rw [outcome] at within ticked
    obtain ⟨op?, h⟩ := within
    obtain ⟨⟨instructions, current, ticks⟩, stops⟩ := n.finish_cases m.word
    have next : m.tick.1 = (n.finish m.word).settle := congrArg Prod.fst ticked
    have ending : m.ending? = if (n.finish m.word).isRunning then none
        else some (.halted (n.ticks + 1)) := by
      rw [← ticks, ending?, ticked]
      rfl
    have running : m.tick.1.isRunning = (n.finish m.word).isRunning := by
      rw [next]
      rfl
    have counted : m.tick.1.instructions = n.instructions := by
      rw [next]
      exact instructions
    have latest : m.tick.1.current = n.current := by
      rw [next]
      exact current
    rcases stops with ⟨same, still⟩ | ⟨more, stopped⟩
    · rw [still, if_pos h.runs] at ending
      have records : m.tick.1.records = n.records ++ [] := by
        rw [next, List.append_nil]
        exact same
      refine h.reported counted latest records (by rw [ending]; rfl) ?_
      rw [running, still, ending]
      exact ⟨fun _ => rfl, fun _ => h.runs⟩
    · rw [stopped, if_neg Bool.false_ne_true] at ending
      have records : m.tick.1.records = n.records ++ [.halted (n.ticks + 1)] := by
        rw [next]
        exact more
      refine h.reported counted latest records (by rw [ending]; rfl) ?_
      rw [running, stopped, ending]
      simp

theorem word_of_ok (runs : m.isRunning) {report : TickReport} (done : m.tick.2 = .ok report) :
    report.word = m.word := by
  rw [tick_eq_lines runs] at done
  cases outcome : m.lines >>= fun n => .ok (n.finish m.word) with
  | error f =>
    rw [outcome] at done
    cases done
  | ok n =>
    rw [outcome] at done
    cases done
    rfl

theorem read_of_fetched (runs : m.isRunning) (fetching : m.word ∈ fetch) {a : Word} {op : Opcode}
    (decodes : m.decoding? = some (a, op)) :
    a = m.registers.address ∧ m.memory.read a = .ok op.id := by
  have third : ∀ w ∈ fetch, w.contains .instructionIn →
      w = .ofList [.memoryOut, .instructionIn, .programCounterIncrement] := by decide
  have word := third m.word fetching ((reported runs).asserted (by rw [decodes]; rfl))
  have ticked := tick_running runs
  rw [word] at ticked
  generalize begun : m.begun.note (.tick m.ticks
    (.ofList [.memoryOut, .instructionIn, .programCounterIncrement])) = n at ticked
  have memory : n.memory = m.memory := by rw [← begun]; rfl
  have registers : n.registers = m.registers := by rw [← begun]; rfl
  have instructions : n.instructions = m.instructions := by rw [← begun]; rfl
  have moved : m.tick.1.instructions ≠ m.instructions := by
    intro same
    rw [decoding?, if_pos same] at decodes
    cases decodes
  rw [decoding?, if_neg moved, Option.map_eq_some_iff] at decodes
  obtain ⟨_, current, same⟩ := decodes
  obtain ⟨rfl, rfl⟩ := Prod.mk.inj same
  refine ⟨rfl, ?_⟩
  rw [ticked] at moved current
  rw [← memory, ← registers]
  cases read : n.memory.read n.registers.address with
  | error e =>
    rw [assert_fetch_error (.inl rfl) read] at moved
    exact absurd instructions moved
  | ok code =>
    cases known : Opcode.ofId? code with
    | none =>
      rw [assert_opcode_unknown read known] at moved
      exact absurd instructions moved
    | some op =>
      rw [assert_opcode read known] at current
      cases current
      rw [Opcode.eq_id_of_ofId? known]

end

/-- `n` is `m` behind ticks that were executed, in these states one after the other -/
inductive Ticked (m : Machine δ) : List (Machine δ) → Machine δ → Prop
  | none : Ticked m [] m
  | tick {ran : List (Machine δ)} {n : Machine δ} (h : Ticked m ran n) (runs : n.isRunning) :
      Ticked m (ran ++ [n]) n.tick.1

theorem exists_ticked (m : Machine δ) (n : Nat) : ∃ ran, Ticked m ran (m.after n) := by
  induction n with
  | zero => exact ⟨[], .none⟩
  | succ n ih =>
    obtain ⟨ran, h⟩ := ih
    by_cases runs : (m.after n).isRunning
    · exact ⟨ran ++ [m.after n], h.tick runs⟩
    · have still : m.after (n + 1) = m.after n := by rw [after, tick_stopped runs]
      exact ⟨ran, still ▸ h⟩

/-- a machine on which these calls are made, with the states in which ticks were executed -/
inductive Life (m : Machine δ) : List (Action δ) → List (Machine δ) → Machine δ → Prop
  | new : Life m [] [] m
  | drive {calls : List (Action δ)} {ran more : List (Machine δ)} {n : Machine δ}
      (h : Life m calls ran n) {call : Action δ} (driving : call.advances)
      (ticked : Ticked n more (n.act call)) : Life m (calls ++ [call]) (ran ++ more) (n.act call)
  | other {calls : List (Action δ)} {ran : List (Machine δ)} {n : Machine δ}
      (h : Life m calls ran n) {call : Action δ} (rests : call.advances = false) :
      Life m (calls ++ [call]) ran (n.act call)

theorem exists_life (m : Machine δ) (calls : List (Action δ)) :
    ∃ ran, Life m calls ran (calls.foldl act m) := by
  induction calls using List.reverseRecOn with
  | nil => exact ⟨[], .new⟩
  | append_singleton calls call ih =>
    obtain ⟨ran, h⟩ := ih
    rw [List.foldl_concat]
    cases driving : call.advances with
    | false => exact ⟨ran, h.other driving⟩
    | true =>
      obtain ⟨n, eq⟩ := exists_after_act (calls.foldl act m) driving
      obtain ⟨more, ticked⟩ := exists_ticked (calls.foldl act m) n
      exact ⟨ran ++ more, h.drive driving (eq ▸ ticked)⟩

/-- the records and the counters of a machine are those of the ticks that were executed in these
states; at most the last of them has ended it -/
structure Traced (ran : List (Machine δ)) (m : Machine δ) : Prop where
  running (s : Machine δ) (mem : s ∈ ran) : s.isRunning
  records : m.records = ran.flatMap report
  instructions : m.instructions = (ran.filterMap decoding?).length
  ticks : m.ticks = ran.length
  numbers : ran.map (·.ticks) = List.range ran.length
  ends : ran.filterMap ending? = [] ∨ ¬ m.isRunning ∧
    ∃ e, ran.filterMap ending? = [e] ∧ e.stopped? = some m.ticks

namespace Traced

variable {ran : List (Machine δ)} {m : Machine δ}

theorem new (memorySize : Nat) : Traced [] (Machine.new memorySize : Machine δ) where
  running _ mem := by cases mem
  records := rfl
  instructions := rfl
  ticks := rfl
  numbers := rfl
  ends := .inl rfl

theorem tick (h : Traced ran m) (runs : m.isRunning) : Traced (ran ++ [m]) m.tick.1 := by
  have reported := reported runs
  have count := ticks_tick runs
  have none : ran.filterMap ending? = [] := h.ends.resolve_right fun ended => ended.1 runs
  refine ⟨?_, ?_, ?_, ?_, ?_, ?_⟩
  · intro s mem
    rcases List.mem_append.1 mem with mem | mem
    · exact h.running s mem
    · rwa [List.mem_singleton.1 mem]
  · rw [reported.records, h.records, List.flatMap_append, List.flatMap_singleton]
  · rw [reported.instructions, h.instructions, List.filterMap_append, List.length_append]
    cases decodes : m.decoding? <;> simp [decodes]
  · rw [count, h.ticks, List.length_append, List.length_singleton]
  · rw [List.map_append, h.numbers, List.length_append, List.length_singleton, List.range_succ,
      ← h.ticks]
    rfl
  · rw [List.filterMap_append, none, List.nil_append]
    cases ending : m.ending? with
    | none => exact .inl (by simp [ending])
    | some e =>
      refine .inr ⟨fun still => ?_, e, by simp [ending], ?_⟩
      · rw [reported.runs.1 still] at ending
        cases ending
      · exact stopped?_of_ending? ending

theorem ticked (h : Traced ran m) {more : List (Machine δ)} {n : Machine δ}
    (ticked : Ticked m more n) : Traced (ran ++ more) n := by
  induction ticked with
  | none => rwa [List.append_nil]
  | tick _ runs ih =>
    rw [← List.append_assoc]
    exact ih.tick runs

theorem aside (h : Traced ran m) {n : Machine δ} (records : n.records = m.records)
    (counters : n.instructions = m.instructions ∧ n.ticks = m.ticks)
    (runs : n.isRunning → m.isRunning) : Traced ran n where
  running := h.running
  records := records.trans h.records
  instructions := counters.1.trans h.instructions
  ticks := counters.2.trans h.ticks
  numbers := h.numbers
  ends := h.ends.imp id fun ⟨stopped, ended⟩ =>
    ⟨fun still => stopped (runs still), by rw [counters.2]; exact ended⟩

theorem rest (h : Traced ran m) {call : Action δ} (rests : call.advances = false) :
    Traced ran (m.act call) := by
  have unrecorded (n : Machine δ) {e : Event} (plain : e.isRecord = false) :
      (n.note e).records = n.records := by
    simp [Machine.records, note, plain]
  cases call with
  | tick | step | run _ | runOn _ _ => cases rests
  | attach device => exact h.aside (unrecorded _ rfl) ⟨rfl, rfl⟩ id
  | enqueue program => exact h.aside rfl ⟨rfl, rfl⟩ id
  | setRegister r value => exact h.aside rfl ⟨rfl, rfl⟩ id
  | load image =>
    rw [act, load]
    split
    · exact h.aside ((unrecorded _ rfl).trans (unrecorded m rfl)) ⟨rfl, rfl⟩ id
    · exact h.aside (unrecorded _ rfl) ⟨rfl, rfl⟩ id
  | poke address value =>
    rw [act, poke]
    cases m.memory.write address value <;> exact h.aside rfl ⟨rfl, rfl⟩ id
  | halt =>
    rw [act, halt]
    split
    · next runs => exact h.aside rfl ⟨rfl, rfl⟩ fun _ => runs
    · exact h

theorem numbered (h : Traced ran m) :
    ran.map (fun s => (s.ticks, s.word)) = ran.zipIdx.map fun (s, i) => (i, s.word) := by
  refine List.ext_getElem? fun i => ?_
  rw [List.getElem?_map, List.getElem?_map, List.getElem?_zipIdx, Nat.zero_add]
  cases found : ran[i]? with
  | none => rfl
  | some s =>
    have place : (ran.map (·.ticks))[i]? = some s.ticks := by rw [List.getElem?_map, found]; rfl
    rw [h.numbers, List.getElem?_range (List.getElem?_eq_some_iff.1 found).1] at place
    rw [Option.map_some, ← Option.some.inj place]
    rfl

theorem of_life {start : Machine δ} {calls : List (Action δ)} (fresh : Traced [] start)
    (life : Life start calls ran m) : Traced ran m := by
  induction life with
  | new => exact fresh
  | drive _ _ ticked ih => exact ih.ticked ticked
  | other _ rests ih => exact ih.rest rests

end Traced

/-- what is read off the journal of a record that only ticks write, is read off the ticks -/
theorem Traced.filterMap_journal {ran : List (Machine δ)} {m : Machine δ} (h : Traced ran m)
    {β : Type} {f : Event → Option β} {g : Machine δ → Option β}
    (told : ∀ e, e.isRecord = false → f e = none)
    (own : ∀ s : Machine δ, s.report.filterMap f = (g s).toList) :
    m.journal.toList.filterMap f = ran.filterMap g := by
  have recorded : m.records.filterMap f = m.journal.toList.filterMap f := by
    rw [Machine.records, List.filterMap_filter]
    refine List.filterMap_congr fun e _ => ?_
    cases record : e.isRecord with
    | true => rfl
    | false => exact (told e record).symm
  rw [← recorded, h.records, List.filterMap_flatMap, List.filterMap_eq_flatMap_toList]
  simp only [own]

theorem filterMap_report {β : Type} (f : Event → Option β) (m : Machine δ) :
    m.report.filterMap f = (f (.tick m.ticks m.word)).toList ++
      ((m.decoding?.bind fun d => f (.decoded d.1 d.2)).toList ++ (m.ending?.bind f).toList) := by
  have single (event? : Option Event) : event?.toList.filterMap f = (event?.bind f).toList := by
    cases event? with
    | none => rfl
    | some e => cases told : f e <;> simp [told]
  have split : m.report = (some (Event.tick m.ticks m.word)).toList ++
      ((m.decoding?.map fun d => Event.decoded d.1 d.2).toList ++ m.ending?.toList) := rfl
  rw [split, List.filterMap_append, List.filterMap_append, single, single, single, Option.bind_map]
  rfl

theorem ending?_bind (m : Machine δ) :
    m.ending?.bind Event.tick? = none ∧ m.ending?.bind Event.decoded? = none ∧
      m.ending?.bind Event.stop? = m.ending? := by
  cases ends : m.ending? with
  | none => exact ⟨rfl, rfl, rfl⟩
  | some e =>
    have stops := stopped?_of_ending? ends
    cases e <;> first | exact ⟨rfl, rfl, rfl⟩ | cases stops

namespace Traced

variable {ran : List (Machine δ)} {m : Machine δ}

theorem ticks_told (h : Traced ran m) : m.journal.toList.filterMap Event.tick? =
    ran.zipIdx.map fun (s, i) => (i, s.word) := by
  have told : m.journal.toList.filterMap Event.tick? =
      ran.filterMap fun s => some (s.ticks, s.word) := by
    refine h.filterMap_journal (fun e => ?_) fun s => ?_
    · cases e <;> simp [Event.isRecord, Event.tick?]
    · rw [filterMap_report, s.ending?_bind.1]
      simp [Event.tick?]
  rw [told, List.filterMap_eq_map', h.numbered]

theorem opcodes_told (h : Traced ran m) :
    m.journal.toList.filterMap Event.decoded? = ran.filterMap decoding? := by
  refine h.filterMap_journal (fun e => ?_) fun s => ?_
  · cases e <;> simp [Event.isRecord, Event.decoded?]
  · rw [filterMap_report, s.ending?_bind.2.1]
    cases s.decoding? <;> rfl

theorem end_told (h : Traced ran m) :
    m.journal.toList.filterMap Event.stop? = ran.filterMap ending? := by
  refine h.filterMap_journal (fun e => ?_) fun s => ?_
  · cases e <;> simp [Event.isRecord, Event.stop?, Event.stopped?]
  · rw [filterMap_report, s.ending?_bind.2.2]
    simp [Event.stop?, Event.stopped?]

theorem ends_once (h : Traced ran m) : (ran.filterMap ending?).length ≤ 1 ∧
    ∀ e ∈ ran.filterMap ending?, e.stopped? = some m.ticks := by
  rcases h.ends with none | ⟨-, e, one, last⟩
  · rw [none]
    simp
  · rw [one]
    simpa using last

end Traced

/-- The journal of a machine tells of the ticks that were executed in these states. They are numbered
from zero, each with its word; opcodes come in the order in which they were decoded, with the address
of the opcode in memory when the fetch has read it; and at most one record tells of the end, with the
number of ticks that the machine has behind the tick that ended it. -/
structure Tells (m : Machine δ) (ran : List (Machine δ)) : Prop where
  running : ∀ s ∈ ran, s.isRunning
  count : ran.length = m.ticks
  records : m.records = ran.flatMap report
  ticks : m.journal.toList.filterMap Event.tick? = ran.zipIdx.map fun (s, i) => (i, s.word)
  words : ∀ s ∈ ran, ∀ report, s.tick.2 = .ok report → report.word = s.word
  opcodes : m.journal.toList.filterMap Event.decoded? = ran.filterMap decoding?
  instructions : (m.journal.toList.filterMap Event.decoded?).length = m.instructions
  addresses : ∀ s ∈ ran, s.word ∈ fetch → ∀ a op, s.decoding? = some (a, op) →
    s.memory.read a = .ok op.id
  stops : m.journal.toList.filterMap Event.stop? = ran.filterMap ending?
  once : (m.journal.toList.filterMap Event.stop?).length ≤ 1
  last : ∀ e ∈ m.journal.toList.filterMap Event.stop?, e.stopped? = some m.ticks

theorem Traced.tells {ran : List (Machine δ)} {m : Machine δ} (h : Traced ran m) : m.Tells ran where
  running := h.running
  count := h.ticks.symm
  records := h.records
  ticks := h.ticks_told
  words s mem _ done := word_of_ok (h.running s mem) done
  opcodes := h.opcodes_told
  instructions := by rw [h.opcodes_told, h.instructions]
  addresses s mem fetching _ _ decodes := (read_of_fetched (h.running s mem) fetching decodes).2
  stops := h.end_told
  once := by rw [h.end_told]; exact h.ends_once.1
  last := by rw [h.end_told]; exact h.ends_once.2

/-- a word that decodes before its write fails, on a machine that is then ticked and halted -/
example :
    let w : ControlWord := .ofList [.instructionIn, .memoryIn]
    let calls : List (Action Device) :=
      [.setRegister .address 100, .enqueue ⟨w, .empty, .empty⟩, .tick, .tick, .halt]
    let m := calls.foldl act (new 16)
    m.instructions = 1 ∧ m.ticks = 1 ∧ m.records.filterMap Event.stopped? = [1] ∧
      m.records.filterMap Event.tick? = [(0, w)] ∧
      (m.records.filterMap Event.decoded?).map Prod.fst = [100] := by
  decide +kernel

end Machine
end OneBus
