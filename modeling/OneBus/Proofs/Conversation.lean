import OneBus.Device
import OneBus.Proofs.Executed
import OneBus.Proofs.Traffic

/-!
What a run says to its devices. Only the one word of an output and the one word of an input reach
the ports. An output writes `IO` to the port that `Address` selects, an input asks the port that
`B` selects, and a port that is not there is a fault. The fetch gives `Address` back before the
word is asserted, so the registers that count are those the instruction began with: the transfers
of a run are those of the instructions completed, one behind the other.
-/

namespace OneBus

namespace Opcode

/-- the word that selects the device of an instruction -/
def selector? (bank : RegisterBank) : Opcode → Option Word
  | output => some bank.address
  | input => some bank.b
  | _ => none

/-- the transfers of an instruction, from the registers ahead of it and behind it -/
def transfers (before behind : RegisterBank) : Opcode → List Transfer
  | output => [.written before.address.toNat before.io]
  | input => [.driven before.b.toNat behind.io]
  | _ => []

variable {op : Opcode} {bank : RegisterBank} {selector : Word}

theorem transfers_eq_nil (none : op.selector? bank = none) (before behind : RegisterBank) :
    op.transfers before behind = [] := by
  cases op <;> first | rfl | cases none

/-- an instruction that selects a device ends in the one word with its line to the ports -/
theorem exists_line (selects : op.selector? bank = some selector) :
    op.cost = 7 ∧ ∃ s, ofLine? s = some op ∧
      ∀ w, (fetch ++ op.microprogram.words).getLast? = some w → w.contains s := by
  cases op with
  | output => exact ⟨by decide, .peripheralIn, rfl, by rintro w ⟨⟩; decide⟩
  | input => exact ⟨by decide, .peripheralOut, rfl, by rintro w ⟨⟩; decide⟩
  | _ => cases selects

theorem transfers_fetched (x counter backup : Word) (op : Opcode) (bank behind : RegisterBank) :
    let fetched := { bank with
      instruction := x, programCounter := counter, addressBackup := backup }
    op.selector? fetched = op.selector? bank ∧
      op.transfers fetched behind = op.transfers bank behind := by
  cases op <;> exact ⟨rfl, rfl⟩

end Opcode

def Execution.transfers {δ : Type} (e : Execution δ) : List Transfer :=
  e.op.transfers e.before.registers e.behind.registers

namespace Machine

open PortTable (Accounted)

variable {δ : Type} [Peripheral δ] {m : Machine δ}

/-- the tick of an instruction that reaches the ports: one transfer, and the instruction is over,
or a fault -/
inductive Transacts (m : Machine δ) (op : Opcode) (selector : Word) : Prop
  | done (x : Transfer) (port : Port δ) (selects : Word.index? selector = some x.port)
      (there : m.ports.ports[x.port]? = some port)
      (transfers : op.transfers m.registers m.tick.1.registers = [x])
      (completes : m.completes? = some op) (runs : m.tick.1.isRunning)
      (ports : m.tick.1.ports = m.ports.record port x)
  | refused (none : m.ports.select? selector = none)
      (fails : m.tick.2 = .error (.port ⟨selector⟩)) (faulted : m.tick.1.condition = .faulted)
      (ports : m.tick.1.ports = m.ports.disconnectAll)

section

variable (running : m.isRunning)

include running

theorem tick_last {w : ControlWord} (queue : m.queue = [w]) :
    m.tick = conclude w
      (({ m with queue := [], phase := .executing }.note (.tick m.ticks w)).assert w) := by
  have pending : m.pending = [w] := pending_of_queue queue (List.cons_ne_nil w [])
  rw [tick_running running, word_of_pending pending, begun, pending]
  rfl

theorem transacts_output (queue : m.queue = Opcode.output.microprogram.words)
    (current : m.current = some .output) : Transacts m .output m.registers.address := by
  let n := { m with queue := [], phase := .executing }.note
    (.tick m.ticks (.ofList [.ioOut, .peripheralIn]))
  have ticked : m.tick = conclude (.ofList [.ioOut, .peripheralIn])
    (n.assert (.ofList [.ioOut, .peripheralIn])) := tick_last running queue
  cases select : m.ports.select? m.registers.address with
  | some found =>
    obtain ⟨i, port⟩ := found
    obtain ⟨selects, there⟩ := PortTable.select?_eq_some_iff.1 select
    obtain ⟨notes, write⟩ := PortTable.write_of_select select m.registers.io
    rw [assert_output (m := n) write] at ticked
    have place : m.registers.address.toNat = i := (Word.index?_eq_some_iff.1 selects).2
    refine .done (.written i m.registers.io) port selects there ?_ ?_ ?_ ?_
    · rw [Opcode.transfers, place]
    · rw [completes?, ticked]
      exact (if_pos rfl).trans current
    · rw [ticked]
      exact running
    · rw [ticked]
      rfl
  | none =>
    have write := PortTable.write_error select m.registers.io
    rw [assert_output_error (m := n) write] at ticked
    exact .refused select (by rw [ticked]; rfl) (by rw [ticked]; rfl) (by rw [ticked]; rfl)

theorem transacts_input (queue : m.queue = Opcode.input.microprogram.words)
    (current : m.current = some .input) : Transacts m .input m.registers.b := by
  let n := { m with queue := [], phase := .executing }.note
    (.tick m.ticks (.ofList [.peripheralOut, .ioIn]))
  have ticked : m.tick = conclude (.ofList [.peripheralOut, .ioIn])
    (n.assert (.ofList [.peripheralOut, .ioIn])) := tick_last running queue
  cases select : m.ports.select? m.registers.b with
  | some found =>
    obtain ⟨i, port⟩ := found
    obtain ⟨selects, there⟩ := PortTable.select?_eq_some_iff.1 select
    obtain ⟨value, drive⟩ := PortTable.drive_of_select select
    rw [assert_input (m := n) drive] at ticked
    have place : m.registers.b.toNat = i := (Word.index?_eq_some_iff.1 selects).2
    have answer : m.tick.1.registers.io = value := by
      rw [ticked]
      rfl
    refine .done (.driven i value) port selects there ?_ ?_ ?_ ?_
    · rw [Opcode.transfers, place, answer]
    · rw [completes?, ticked]
      exact (if_pos rfl).trans current
    · rw [ticked]
      exact running
    · rw [ticked]
      rfl
  | none =>
    have drive := PortTable.drive_error select
    rw [assert_input_error (m := n) drive] at ticked
    exact .refused select (by rw [ticked]; rfl) (by rw [ticked]; rfl) (by rw [ticked]; rfl)

theorem transacts {op : Opcode} {selector : Word} (queue : m.queue = op.microprogram.words)
    (current : m.current = some op) (selects : op.selector? m.registers = some selector) :
    Transacts m op selector := by
  cases op with
  | output =>
    cases selects
    exact transacts_output running queue current
  | input =>
    cases selects
    exact transacts_input running queue current
  | _ => cases selects

theorem ports_tick_plain (sends : m.word.contains .peripheralIn = false)
    (asks : m.word.contains .peripheralOut = false) :
    m.tick.1.ports = if m.tick.1.isRunning then m.ports else m.ports.disconnectAll := by
  let Q (n : Machine δ) : Prop := n.isRunning ∧ n.ports = m.ports
  let R (n : Machine δ) : Prop :=
    n.ports = if n.isRunning then m.ports else m.ports.disconnectAll
  have stopped (n : Machine δ) (same : n.ports = m.ports) {c : Condition} (stops : c ≠ .running) :
      R (n.stop c) := by
    have still : ¬ (n.stop c).isRunning := by simpa [isRunning, stop] using stops
    change (n.stop c).ports = _
    rw [if_neg still, ← same]
    rfl
  refine tick_ends (Q := Q) (R := R) running ⟨running, rfl⟩ ?_ ?_ ?_ ?_
  · intro n s asserted h
    refine Ends.drive s (fun _ => h) fun _ _ line _ => ?_
    rw [line, asks] at asserted
    cases asserted
  · intro n a s asserted h
    refine Ends.latch a s h (fun _ _ => h) (fun _ _ line _ => ?_) (fun _ _ => h) fun _ _ _ => h
    rw [line, sends] at asserted
    cases asserted
  · rintro n ⟨runs, same⟩
    have ended : R (n.finish m.word) := by
      unfold finish
      cases m.word.contains .halt with
      | true => exact stopped _ (by split <;> exact same) (by decide)
      | false =>
        cases m.word.contains .programCounterIncrement <;> exact same.trans (if_pos runs).symm
    exact ended
  · exact fun n e h => stopped (n.settle.note (.faulted n.settle.ticks e)) h.2 (by decide)

end

/-- what the devices hear of a tick: the transfers of the instruction that it completes, and whether
it stops the machine -/
def Conveys (m : Machine δ) (n : Nat) : Prop :=
  (m.after (n + 1)).ports.traffic.toList =
    (m.after n).ports.traffic.toList ++ (m.completion? n).toList.flatMap Execution.transfers ++
      if (m.after (n + 1)).isRunning then []
      else (List.range (m.after n).ports.length).map .disconnected

section

variable (queue : m.queue = []) (phase : m.phase = .idle)

include queue phase

theorem transacts_after {n : Nat} (runs : (m.after n).isRunning) {op : Opcode} {s : Signal}
    {selector : Word} (line : Opcode.ofLine? s = some op) (asserts : (m.after n).word.contains s)
    (selects : op.selector? (m.after n).registers = some selector) :
    Transacts (m.after n) op selector := by
  obtain ⟨_, -, -, words, current⟩ := place_of_line (place_after queue phase runs) line asserts
  exact transacts runs words current selects

omit queue phase in
/-- with the fetch over, the registers that a transfer takes are as they were ahead of it -/
theorem transfers_completed {n : Nat} (runs : (m.after n).isRunning) {past : List Opcode}
    {e : Execution δ} (done : m.Completed n past e) (seven : e.op.cost = 7) :
    e.op.selector? (m.after n).registers = e.op.selector? e.before.registers ∧
      e.op.transfers (m.after n).registers (m.after (n + 1)).registers = e.transfers := by
  have ticks := done.ticks
  have later : m.after n = e.before.after 6 := by
    have place : n = duration past + 6 := by omega
    rw [done.before, ← after_add, ← place]
  rw [later] at runs ⊢
  obtain ⟨code, op, x, read, known, behind⟩ := exists_fetch done.running done.queue runs
  rw [registers_after_fetch done.running done.queue read known behind, Execution.transfers,
    done.behind]
  exact Opcode.transfers_fetched x _ _ e.op e.before.registers _

theorem conveys_access {n : Nat} (runs : (m.after n).isRunning) {op : Opcode} {selector : Word}
    (selects : op.selector? (m.after n).registers = some selector)
    (outcome : Transacts (m.after n) op selector) : m.Conveys n := by
  unfold Conveys
  cases outcome with
  | done x port place there transfers completes stays ports =>
    have finished : m.completion? n = some ⟨op, m.after (n + 1 - op.cost), m.after (n + 1)⟩ := by
      rw [completion?, completes]
      rfl
    obtain ⟨past, done⟩ := exists_completed queue phase finished
    have same := (transfers_completed runs done (Opcode.exists_line selects).1).2
    have own := same.symm.trans transfers
    have ports : (m.after (n + 1)).ports = _ := ports
    have stays : (m.after (n + 1)).isRunning := stays
    rw [finished, if_pos stays, ports, PortTable.traffic_record, Option.toList_some,
      List.flatMap_singleton, own, List.append_nil]
  | refused none fails faulted ports =>
    have finished : m.completion? n = .none := by
      rw [completion?, completes?_of_error fails]
      rfl
    have ports : (m.after (n + 1)).ports = _ := ports
    have faulted : (m.after (n + 1)).condition = .faulted := faulted
    have stops : ¬ (m.after (n + 1)).isRunning := by
      rw [isRunning, faulted]
      decide
    rw [finished, if_neg stops, ports, PortTable.traffic_disconnectAll, Option.toList_none,
      List.flatMap_nil, List.append_nil]

theorem exists_line_completed {n : Nat} {e : Execution δ} (finished : m.completion? n = some e)
    {selector : Word} (selects : e.op.selector? e.before.registers = some selector) :
    e.op.selector? (m.after n).registers = some selector ∧
      ∃ s, Opcode.ofLine? s = some e.op ∧ (m.after n).word.contains s := by
  obtain ⟨past, done⟩ := exists_completed queue phase finished
  obtain ⟨seven, s, line, last⟩ := Opcode.exists_line selects
  have same := (transfers_completed (isRunning_of_completion? finished) done seven).1
  exact ⟨same.trans selects, s, line, last _ done.last⟩

theorem conveys_plain {n : Nat} (runs : (m.after n).isRunning)
    (plain : ∀ s op selector, Opcode.ofLine? s = some op → (m.after n).word.contains s →
      op.selector? (m.after n).registers ≠ some selector) : m.Conveys n := by
  have sends : (m.after n).word.contains .peripheralIn = false :=
    Bool.eq_false_iff.2 fun asserted => plain _ .output _ rfl asserted rfl
  have asks : (m.after n).word.contains .peripheralOut = false :=
    Bool.eq_false_iff.2 fun asserted => plain _ .input _ rfl asserted rfl
  have ports : (m.after (n + 1)).ports =
      if (m.after (n + 1)).isRunning then (m.after n).ports
      else (m.after n).ports.disconnectAll := ports_tick_plain runs sends asks
  have silent : ∀ e ∈ (m.completion? n).toList, e.transfers = [] := by
    intro e finished
    cases selects : e.op.selector? e.before.registers with
    | none => exact Opcode.transfers_eq_nil selects _ _
    | some selector =>
      obtain ⟨same, s, line, asserts⟩ :=
        exists_line_completed queue phase (Option.mem_toList.1 finished) selects
      exact absurd same (plain s e.op selector line asserts)
  rw [Conveys, ports, List.flatMap_eq_nil_iff.2 silent, List.append_nil]
  split
  · rw [List.append_nil]
  · exact PortTable.traffic_disconnectAll _

theorem conveys {n : Nat} (runs : (m.after n).isRunning) : m.Conveys n := by
  by_cases access : ∃ s op selector, Opcode.ofLine? s = some op ∧ (m.after n).word.contains s ∧
      op.selector? (m.after n).registers = some selector
  · obtain ⟨s, op, selector, line, asserts, selects⟩ := access
    exact conveys_access queue phase runs selects
      (transacts_after queue phase runs line asserts selects)
  · exact conveys_plain queue phase runs fun s op selector line asserts selects =>
      access ⟨s, op, selector, line, asserts, selects⟩

omit queue phase in
theorem completion?_stopped {n : Nat} (stopped : ¬ (m.after n).isRunning) :
    m.completion? n = none := by
  have fails : (m.after n).tick.2 = .error (.notRunning (m.after n).condition) := by
    rw [tick_stopped stopped]
  rw [completion?, completes?_of_error fails]
  rfl

/-- the transfers of a run are those of the instructions it completes, until it stops -/
theorem traffic_after {devices : List δ} (accounted : Accounted devices m.ports)
    (fresh : m.ports.traffic.toList = []) (running : m.isRunning) (n : Nat) :
    (m.after n).ports.traffic.toList = (m.executed n).flatMap Execution.transfers ++
      if (m.after n).isRunning then [] else (List.range devices.length).map .disconnected := by
  induction n with
  | zero =>
    have start : (m.after 0).isRunning := running
    rw [if_pos start]
    exact fresh
  | succ n ih =>
    rw [executed_succ, List.flatMap_append]
    by_cases runs : (m.after n).isRunning
    · rw [if_pos runs, List.append_nil] at ih
      rw [conveys queue phase runs, ih, (accounted_after accounted n).length]
    · have still : m.after (n + 1) = m.after n := by rw [after, tick_stopped runs]
      rw [still, completion?_stopped runs, ih]
      simp

omit queue phase in
theorem value_after {devices : List δ} (accounted : Accounted devices m.ports) {n p : Nat}
    {sent told : List Transfer} (bound : p < devices.length)
    (traffic : (m.after n).ports.traffic.toList = sent ++ told)
    (parting : ∀ x ∈ told, x.isCall = false) :
    (m.after n).ports.value? p = some ((sent.filterMap (Transfer.written? p)).getLast?.getD 0) := by
  have none : told.filterMap (Transfer.written? p) = [] := by
    refine List.filterMap_eq_nil_iff.2 fun x mem => ?_
    have := parting x mem
    cases x <;> first | rfl | cases this
  rw [PortTable.value?_eq, (accounted_after accounted n).port, List.getElem?_eq_getElem bound,
    Option.map_some, Option.map_some, Transfer.value_delivered, traffic, List.filterMap_append,
    none, List.append_nil]

omit phase in
theorem after_refused (running : m.isRunning) {op : Opcode} {x selector : Word}
    (read : m.memory.read m.counter = .ok op.id) (behind : m.memory.read (m.counter + 1) = .ok x)
    (selects : op.selector? m.registers = some selector)
    (none : m.ports.select? selector = none) :
    (m.after 6).tick.2 = .error (.port ⟨selector⟩) ∧ (m.after 7).condition = .faulted ∧
      (m.after 7).ports = m.ports.disconnectAll := by
  have words : op.microprogram.words ≠ [] := by
    intro empty
    obtain rfl | rfl := Opcode.words_eq_nil empty <;> cases selects
  have fetched := after_fetch running queue read (Opcode.ofId?_id op) behind
  rw [if_neg words] at fetched
  obtain ⟨bus, journal, eq⟩ := Alike.exists_eq fetched.symm
  have same := (Opcode.transfers_fetched x (m.counter + 2) m.registers.address op m.registers
    m.registers).1
  have runs : (m.after 6).isRunning := by rw [eq]; exact running
  have pending : (m.after 6).queue = op.microprogram.words := by rw [eq]; rfl
  have current : (m.after 6).current = some op := by rw [eq]; rfl
  have bank : op.selector? (m.after 6).registers = some selector := by
    rw [eq]
    exact same.trans selects
  have ports : (m.after 6).ports = m.ports := by rw [eq]; rfl
  have next : m.after 7 = (m.after 6).tick.1 := rfl
  rw [next]
  cases transacts runs pending current bank with
  | done y port place there =>
    rw [ports] at there
    rw [PortTable.select?_eq_some_iff.2 ⟨place, there⟩] at none
    cases none
  | refused _ fails faulted gone =>
    rw [ports] at gone
    exact ⟨fails, faulted, gone⟩

theorem restored_completed {n : Nat} {e : Execution δ} (finished : m.completion? n = some e) :
    e.op.transfers (m.after n).registers e.behind.registers = e.transfers := by
  obtain ⟨past, done⟩ := exists_completed queue phase finished
  cases selects : e.op.selector? e.before.registers with
  | none =>
    rw [Execution.transfers, Opcode.transfers_eq_nil selects, Opcode.transfers_eq_nil selects]
  | some selector =>
    obtain ⟨seven, -⟩ := Opcode.exists_line selects
    rw [done.behind]
    exact (transfers_completed (isRunning_of_completion? finished) done seven).2

theorem attached_completed {n : Nat} {e : Execution δ} (finished : m.completion? n = some e)
    {selector : Word} (selects : e.op.selector? e.before.registers = some selector) :
    ∃ port < (m.after n).ports.length, Word.index? selector = some port := by
  obtain ⟨same, s, line, asserts⟩ := exists_line_completed queue phase finished selects
  cases transacts_after queue phase (isRunning_of_completion? finished) line asserts same with
  | done x port place there => exact ⟨x.port, PortTable.lt_length there, place⟩
  | refused _ fails =>
    rw [completion?, completes?_of_error fails] at finished
    cases finished

theorem quiet_after {devices : List δ} (accounted : Accounted devices m.ports) {n : Nat}
    (runs : (m.after (n + 1)).isRunning)
    (silent : ∀ e, m.completion? n = some e → e.transfers = []) :
    (m.after (n + 1)).ports = (m.after n).ports := by
  have none : (m.completion? n).toList.flatMap Execution.transfers = [] :=
    List.flatMap_eq_nil_iff.2 fun e finished => silent e (Option.mem_toList.1 finished)
  have same : Conveys m n := conveys queue phase (isRunning_of_after runs)
  rw [Conveys, none, if_pos runs, List.append_nil, List.append_nil] at same
  exact (accounted_after accounted (n + 1)).eq_of_traffic (accounted_after accounted n) same

end

/-- what the devices of a run hear: the transfers of the instructions that it completes, and
nothing else until it stops -/
structure Converses (devices : List δ) (m : Machine δ) : Prop where
  accounted (n : Nat) : Accounted devices (m.after n).ports
  traffic (n : Nat) :
    (m.after n).ports.traffic.toList = (m.executed n).flatMap Execution.transfers ++
      if (m.after n).isRunning then [] else (List.range devices.length).map .disconnected
  whole (n : Nat) (e : Execution δ) (finished : m.completion? n = some e) :
    e.before.isRunning ∧ e.before.phase = .idle ∧ e.before.queue = [] ∧
      e.behind = e.before.after e.op.cost ∧ e.behind = m.after (n + 1)
  complete (n : Nat) (runs : (m.after n).isRunning) (idle : (m.after n).phase = .idle) :
    (m.executed n).map Execution.op = m.history n
  restored (n : Nat) (e : Execution δ) (finished : m.completion? n = some e) :
    e.op.transfers (m.after n).registers e.behind.registers = e.transfers
  attached (n : Nat) (e : Execution δ) (finished : m.completion? n = some e) (selector : Word)
    (selects : e.op.selector? e.before.registers = some selector) :
    ∃ port < devices.length, Word.index? selector = some port
  quiet (n : Nat) (runs : (m.after (n + 1)).isRunning)
    (silent : ∀ e, m.completion? n = some e → e.transfers = []) :
    (m.after (n + 1)).ports = (m.after n).ports
  refuses (n : Nat) (runs : (m.after n).isRunning) (idle : (m.after n).phase = .idle)
    (op : Opcode) (x selector : Word)
    (read : (m.after n).memory.read (m.after n).counter = .ok op.id)
    (behind : (m.after n).memory.read ((m.after n).counter + 1) = .ok x)
    (selects : op.selector? (m.after n).registers = some selector)
    (unattached : ∀ port < devices.length, Word.index? selector ≠ some port) :
    (m.after (n + 6)).tick.2 = .error (.port ⟨selector⟩) ∧
      (m.after (n + 7)).condition = .faulted ∧
      (m.after (n + 7)).ports = (m.after n).ports.disconnectAll
  value (n p : Nat) (bound : p < devices.length) :
    (m.after n).ports.value? p =
      some ((((m.executed n).flatMap Execution.transfers).filterMap
        (Transfer.written? p)).getLast?.getD 0)

/-- every run from a freshly loaded machine -/
theorem boot_converses (image : Image) (memorySize : Nat) (devices : List δ) :
    (boot image memorySize devices).Converses devices := by
  have accounted := accounted_boot image memorySize devices
  have control := control_boot image memorySize devices
  have fresh := traffic_boot image memorySize devices
  obtain ⟨queue, phase⟩ := idle_boot image memorySize devices
  generalize boot image memorySize devices = m at *
  have running : m.isRunning := beq_iff_eq.2 (congrArg Control.condition control)
  have traffic := traffic_after queue phase accounted fresh running
  have length (n : Nat) : (m.after n).ports.length = devices.length :=
    (accounted_after accounted n).length
  refine ⟨accounted_after accounted, traffic, ?_, ?_, ?_, ?_, ?_, ?_, ?_⟩
  · intro n e finished
    obtain ⟨past, done⟩ := exists_completed queue phase finished
    have behind : e.behind = e.before.after e.op.cost := by
      rw [done.behind, done.ticks, after_add, ← done.before]
    exact ⟨done.running, done.phase, done.queue, behind, done.behind⟩
  · exact fun n runs idle => executed_ops_of_idle queue phase runs idle
  · exact fun n e finished => restored_completed queue phase finished
  · exact fun n e finished selector selects =>
      length n ▸ attached_completed queue phase finished selects
  · exact fun n runs silent => quiet_after queue phase accounted runs silent
  · intro n runs idle op x selector read behind selects unattached
    have empty := (place_after queue phase runs).queue_of_idle idle
    have none : (m.after n).ports.select? selector = none := by
      refine Option.eq_none_iff_forall_ne_some.2 fun found select => ?_
      obtain ⟨place, there⟩ := PortTable.select?_eq_some_iff.1 select
      exact unattached found.1 (length n ▸ PortTable.lt_length there) place
    rw [after_add, after_add]
    exact after_refused empty runs read behind selects none
  · intro n p bound
    refine value_after accounted bound (traffic n) fun x mem => ?_
    split at mem
    · cases mem
    · obtain ⟨port, -, rfl⟩ := List.mem_map.1 mem
      rfl

/-- `B` selects the device that is asked and `Address` the one that is written to; the second input
asks a device that is not there -/
theorem boot_converses_refused :
    let image : Image := ⟨0, [.of (.loadImmediate .b) 0, .of .input,
      .of (.loadImmediate .address) 1, .of .output, .of (.loadImmediate .b) 7, .of .input]⟩
    let m : Machine Device := boot image 64 [.probe 11 {}, .probe 22 {}]
    (m.after 38).isRunning ∧ (m.after 38).phase = .idle ∧
      (m.executed 38).map Execution.op = m.history 38 ∧
      (m.after 44).tick.2 = .error (.port ⟨7⟩) ∧ (m.after 45).condition = .faulted ∧
      (m.executed 45).flatMap Execution.transfers = [.driven 0 11, .written 1 11] ∧
      (m.after 45).ports.traffic.toList =
        [.driven 0 11, .written 1 11, .disconnected 0, .disconnected 1] ∧
      (m.after 45).ports.value? 1 = some 11 := by
  intro image m
  have converses : m.Converses [.probe 11 {}, .probe 22 {}] := boot_converses image 64 _
  have runs : (m.after 38).isRunning := by decide +kernel
  have idle : (m.after 38).phase = .idle := by decide +kernel
  have read : (m.after 38).memory.read (m.after 38).counter = .ok Opcode.input.id := by
    decide +kernel
  have behind : (m.after 38).memory.read ((m.after 38).counter + 1) = .ok 0 := by decide +kernel
  have selects : Opcode.input.selector? (m.after 38).registers = some 7 := by decide +kernel
  obtain ⟨fails, faulted, -⟩ :=
    converses.refuses 38 runs idle .input 0 7 read behind selects (by decide)
  have sent : (m.executed 45).flatMap Execution.transfers = [.driven 0 11, .written 1 11] := by
    decide +kernel
  have stops : ¬ (m.after 45).isRunning := by decide +kernel
  refine ⟨runs, idle, converses.complete 38 runs idle, fails, faulted, sent, ?_, ?_⟩
  · rw [converses.traffic 45, sent, if_neg stops]
    rfl
  · rw [converses.value 45 1 (by decide), sent]
    rfl

end Machine
end OneBus
