import OneBus.Debugger.Keys
import OneBus.Proofs.Advance
import OneBus.Proofs.Conversation
import OneBus.Proofs.Reassembly

/-!
The output pane of the debugger. Its machine has a display on its only port, so what the display
has printed are the values of the outputs that the machine has completed, a decimal number to a
line; cut into lines it is the list of these numbers again. Every request short of a reset carries
the machine on by some ticks, and the log gets the values of the outputs that these complete. A reset
clears the log before it gives up the machine, which then writes nothing more. So `Since` goes along
with any requests, and the pane shows the end of the list of values sent since the last reset.
-/

namespace OneBus

namespace Text

theorem lines_join {ls : List String} (single : ∀ l ∈ ls, '\n' ∉ l.toList) :
    lines (String.join (ls.map (· ++ "\n"))) = ls := by
  have text : (String.join (ls.map (· ++ "\n"))).toList =
      (ls.map String.toList).flatMap (· ++ ['\n']) := by
    rw [String.toList_join, List.flatMap_map, List.flatMap_map]
    simp only [String.toList_append]
    rfl
  have clean : ∀ l ∈ ls.map String.toList, ∀ c ∈ l, (c == '\n') = false := by
    intro l mem c h
    obtain ⟨line, known, rfl⟩ := List.mem_map.1 mem
    exact beq_eq_false_iff_ne.2 fun same => single line known (same ▸ h)
  rw [lines, text, cut_lines clean rfl]
  simp [Function.comp_def]

end Text

open Device (displayed)

/-- a value as a display prints it -/
def shownLine (value : Word) : String := displayed value ++ "\n"

/-- what a display has printed that got these values, latest first -/
def shownLines (values : List Word) : List String := (values.map shownLine).reverse

theorem shownLines_append (before after : List Word) :
    shownLines (before ++ after) = shownLines after ++ shownLines before := by
  simp [shownLines]

theorem Device.write_display {sink : Sink} (room : sink.room = none) (value : Word) :
    ∃ printed : Sink, (write (.display sink) value).1 = .display printed ∧ printed.room = none ∧
      printed.prints = shownLine value :: sink.prints := by
  have fits : sink.fits (displayed value ++ "\n") := by
    rw [Sink.fits, room]
    rfl
  have prints : sink.print? (displayed value ++ "\n") =
      some { sink with prints := shownLine value :: sink.prints } := if_pos fits
  refine ⟨{ sink with prints := shownLine value :: sink.prints }, ?_, room, rfl⟩
  rw [write, prints]

namespace Transfer

theorem deliver_display {port : Port Device} {sink : Sink} (device : port.device = .display sink)
    (room : sink.room = none) (p : Nat) (x : Transfer) :
    ∃ printed : Sink, (x.deliver p port).device = .display printed ∧ printed.room = none ∧
      printed.prints = shownLines (x.written? p).toList ++ sink.prints := by
  by_cases here : x.port = p
  · rw [deliver, if_pos here]
    subst here
    cases x with
    | written q value =>
      obtain ⟨printed, write, still, prints⟩ := Device.write_display room value
      refine ⟨printed, ?_, still, ?_⟩
      · rw [reach, device]
        exact write
      · simpa [written?, Transfer.port, shownLines] using prints
    | driven q value =>
      refine ⟨sink, ?_, room, by simp [written?, shownLines]⟩
      rw [reach, device]
      rfl
    | disconnected q =>
      refine ⟨sink.flush, ?_, room, by simp [written?, shownLines, Sink.flush]⟩
      rw [reach, device]
      rfl
  · have none : x.written? p = none := by
      cases x with
      | written q value => exact if_neg here
      | driven q value | disconnected q => rfl
    rw [deliver, if_neg here, none]
    exact ⟨sink, device, room, by simp [shownLines]⟩

theorem delivered_display (p : Nat) (traffic : List Transfer) :
    ∃ sink : Sink, (delivered p (Device.display {}) traffic).device = .display sink ∧
      sink.room = none ∧ sink.prints = shownLines (traffic.filterMap (written? p)) := by
  induction traffic using List.reverseRecOn with
  | nil => exact ⟨{}, rfl, rfl, rfl⟩
  | append_singleton rest x ih =>
    obtain ⟨sink, device, room, prints⟩ := ih
    obtain ⟨printed, device, room, more⟩ := deliver_display device room p x
    refine ⟨printed, ?_, room, ?_⟩
    · rw [delivered_concat, device]
    · rw [more, prints, List.filterMap_append, ← shownLines_append]
      cases here : x.written? p <;> simp [here]

end Transfer

namespace Machine

variable {δ : Type} [Peripheral δ]

/-- the value that the next tick puts out, if it completes an output -/
def emits? (m : Machine δ) : Option Word :=
  if m.completes? = some .output then some m.registers.io else none

/-- the values that the next ticks put out -/
def emitted (m : Machine δ) (n : Nat) : List Word :=
  (List.range n).filterMap fun i => (m.after i).emits?

theorem emitted_succ (m : Machine δ) (n : Nat) :
    m.emitted (n + 1) = m.emitted n ++ (m.after n).emits?.toList := by
  rw [emitted, List.range_succ, List.filterMap_append, ← emitted, List.filterMap_cons]
  cases (m.after n).emits? <;> rfl

theorem emitted_add (m : Machine δ) (i j : Nat) :
    m.emitted (i + j) = m.emitted i ++ (m.after i).emitted j := by
  induction j with
  | zero => exact (List.append_nil _).symm
  | succ j ih => rw [← Nat.add_assoc, emitted_succ, ih, emitted_succ, after_add, List.append_assoc]

/-- the values of the outputs among some instructions -/
def outputs (executed : List (Execution δ)) : List Word :=
  (executed.filter (·.op = .output)).map (·.before.registers.io)

section

variable {m : Machine δ} {device : δ} (h : m.Converses [device])

include h

theorem written_completed {n : Nat} {e : Execution δ} (finished : m.completion? n = some e) :
    e.transfers.filterMap (Transfer.written? 0) = (m.after n).emits?.toList ∧
      outputs [e] = (m.after n).emits?.toList := by
  have restored := h.restored n e finished
  have attached := h.attached n e finished
  obtain ⟨op, completes, rfl⟩ := Option.map_eq_some_iff.1 finished
  by_cases puts : op = .output
  · subst puts
    obtain ⟨port, bound, place⟩ := attached _ rfl
    obtain rfl : port = 0 := by simpa using bound
    obtain ⟨-, zero⟩ := Word.index?_eq_some_iff.1 place
    simp only [Execution.transfers, Opcode.transfers, List.cons.injEq, Transfer.written.injEq,
      and_true] at restored
    simp [Execution.transfers, Opcode.transfers, Transfer.written?, outputs, emits?, zero,
      completes, restored.2]
  · have silent : (op.transfers (m.after (n + 1 - op.cost)).registers
        (m.after (n + 1)).registers).filterMap (Transfer.written? 0) = [] := by
      cases op <;> first | exact absurd rfl puts | rfl
    simpa [Execution.transfers, outputs, emits?, completes, puts] using silent

/-- the values put out are those of the outputs completed, and they are all that the device gets -/
theorem written_executed (n : Nat) :
    ((m.executed n).flatMap Execution.transfers).filterMap (Transfer.written? 0) = m.emitted n ∧
      outputs (m.executed n) = m.emitted n := by
  induction n with
  | zero => exact ⟨rfl, rfl⟩
  | succ n ih =>
    obtain ⟨written, puts⟩ := ih
    rw [executed_succ, emitted_succ, ← written]
    cases finished : m.completion? n with
    | none =>
      have none : (m.after n).completes? = none := Option.map_eq_none_iff.1 finished
      simp [emits?, none, puts, written]
    | some e =>
      obtain ⟨more, later⟩ := written_completed h finished
      rw [← more, List.flatMap_append, List.filterMap_append]
      refine ⟨by simp, ?_⟩
      rw [more, ← later, written, ← puts, outputs, List.filter_append, List.map_append]
      rfl

end

end Machine

namespace Debugger

open Machine (Advances)

theorem converses_boot (image : Image) (memorySize : Nat) :
    (boot image memorySize).Converses [Device.display {}] :=
  Machine.boot_converses image memorySize [Device.display {}]

theorem shown_after (image : Image) (memorySize n : Nat) :
    shown ((boot image memorySize).after n) = shownLines ((boot image memorySize).emitted n) := by
  have converses := converses_boot image memorySize
  generalize boot image memorySize = m at converses
  have accounted := converses.accounted n
  obtain ⟨written, -⟩ := Machine.written_executed converses n
  have heard : (m.after n).ports.traffic.toList.filterMap (Transfer.written? 0) = m.emitted n := by
    rw [converses.traffic n, List.filterMap_append, written]
    split <;> exact List.append_nil _
  obtain ⟨sink, device, -, prints⟩ :=
    Transfer.delivered_display 0 (m.after n).ports.traffic.toList
  have one : (m.after n).ports.ports.length = 1 :=
    (m.after n).ports.length_eq.symm.trans accounted.length
  have first := accounted.port 0
  obtain ⟨port, only⟩ := List.length_eq_one_iff.1 one
  rw [only] at first
  obtain rfl : port = _ := Option.some.inj first
  rw [shown, PortTable.devices, only, ← heard, ← prints]
  simp [device, Device.prints]

theorem shown_halt (m : Machine Device) : shown m.halt = shown m := by
  have silent (d : Device) : (Peripheral.disconnect d).prints = d.prints := by cases d <;> rfl
  rw [Machine.halt]
  split
  · rw [shown, shown, Machine.stop, PortTable.devices, PortTable.devices,
      PortTable.ports_disconnectAll]
    cases m.ports.ports with
    | nil => rfl
    | cons port rest => exact silent port.device
  · rfl

theorem log_halt (d : Debugger) : d.halt.log = d.log := by
  change d.log.follow (shown d.machine).length (shown d.machine.halt) = d.log
  rw [shown_halt, OutputLog.follow_self]

/-- after a reset the log is as new, whatever the old machine and the log were -/
theorem log_reset (d : Debugger) : d.reset.log = {} := log_halt d.clearOutput

/-- what a user can ask for, by a key or otherwise -/
inductive Request
  | obey (c : Command)
  | press (k : Key)
  | pause
  | scrollTo (cell : Nat)
  | reset
  deriving DecidableEq

def ask (d : Debugger) : Request → Debugger
  | .obey c => d.obey c
  | .press k => d.press k
  | .pause => d.pause
  | .scrollTo cell => d.scrollTo cell
  | .reset => d.reset

def Request.resets (c : Request) : Bool := c = .reset ∨ c = .press .reset

/-- what a reset begins with -/
def origin (d : Debugger) : Image × Nat := (d.image, d.memorySize)

/-- goes on without a reset: the log has got what the display has printed meanwhile -/
structure CarriesOn (d e : Debugger) : Prop where
  origin : e.origin = d.origin
  log : e.log = d.log.follow (shown d.machine).length (shown e.machine)

namespace CarriesOn

variable {d e : Debugger}

theorem of_still (machine : e.machine = d.machine) (origin : e.origin = d.origin)
    (log : e.log = d.log) : CarriesOn d e :=
  ⟨origin, by rw [machine, log, OutputLog.follow_self]⟩

theorem of_moved {m : Machine Device} (machine : e.machine = m) (origin : e.origin = d.origin)
    (log : e.log = (d.moved m).log) : CarriesOn d e :=
  ⟨origin, by rw [machine, log]; rfl⟩

theorem refl (d : Debugger) : CarriesOn d d := of_still rfl rfl rfl

theorem tickOnce (d : Debugger) : CarriesOn d d.tickOnce := by
  unfold Debugger.tickOnce
  split
  · rw [lend_eq]
    generalize d.machine.tick = outcome
    obtain ⟨m, report | e⟩ := outcome <;> exact of_moved rfl rfl rfl
  · exact of_still rfl rfl rfl

theorem step (d : Debugger) : CarriesOn d d.step := by
  unfold Debugger.step
  split
  · rw [lend_eq]
    generalize stepFrom d.machine = outcome
    obtain ⟨m, start, e | none | op⟩ := outcome <;> exact of_moved rfl rfl rfl
  · exact of_still rfl rfl rfl

theorem tick (d : Debugger) : CarriesOn d d.tick := by
  unfold Debugger.tick
  split
  · exact refl d
  · split
    · exact of_still rfl rfl rfl
    · have stepped := step d
      generalize d.step = next at stepped
      dsimp only
      split
      · exact ⟨stepped.origin, stepped.log⟩
      · exact stepped

theorem toggleBreakpoint (d : Debugger) : CarriesOn d d.toggleBreakpoint := by
  unfold Debugger.toggleBreakpoint
  split <;> exact of_still rfl rfl rfl

theorem ask (d : Debugger) {c : Request} (goes : ¬ c.resets) : CarriesOn d (d.ask c) := by
  cases c with
  | obey c =>
    cases c with
    | tickOnce => exact tickOnce d
    | step => exact step d
    | tick => exact tick d
    | toggleBreakpoint => exact toggleBreakpoint d
    | run | addBreakpoint address => exact of_still rfl rfl rfl
  | press k =>
    cases k with
    | tick => exact ⟨(tickOnce d.pause).origin, (tickOnce d.pause).log⟩
    | step => exact ⟨(step d.pause).origin, (step d.pause).log⟩
    | breakpoint => exact toggleBreakpoint d
    | down =>
      rw [Debugger.ask, press, scrollDown]
      split <;> exact of_still rfl rfl rfl
    | run | pause | up => exact of_still rfl rfl rfl
    | reset => exact absurd rfl goes
  | pause | scrollTo cell => exact of_still rfl rfl rfl
  | reset => exact absurd rfl goes

end CarriesOn

theorem ask_of_resets (d : Debugger) {c : Request} (resets : c.resets) : d.ask c = d.reset := by
  have reset : c = .reset ∨ c = .press .reset := by simpa [Request.resets] using resets
  obtain rfl | rfl := reset <;> rfl

theorem origin_ask (d : Debugger) (c : Request) : (d.ask c).origin = d.origin := by
  by_cases resets : c.resets
  · rw [ask_of_resets d resets]
    rfl
  · exact (CarriesOn.ask d resets).origin

theorem machine_ask (d : Debugger) (c : Request) :
    if c.resets then (d.ask c).machine = boot d.image d.memorySize
    else Advances d.machine (d.ask c).machine := by
  cases c with
  | obey c => exact d.advances_obey c
  | press k =>
    cases k with
    | tick => exact d.pause.advances_tickOnce
    | step => exact d.pause.advances_step
    | breakpoint => exact d.advances_obey .toggleBreakpoint
    | down =>
      change Advances d.machine d.scrollDown.machine
      unfold scrollDown
      split <;> exact .refl d.machine
    | run | pause | up => exact .refl d.machine
    | reset => rfl
  | pause | scrollTo cell => exact .refl d.machine
  | reset => rfl

/-- the values put out since the last reset, where `outs` had been put out before -/
def putOut (outs : List Word) (d : Debugger) : List Request → List Word
  | [] => outs
  | c :: rest =>
    let more := d.machine.emitted ((d.ask c).machine.ticks - d.machine.ticks)
    putOut (if c.resets then [] else outs ++ more) (d.ask c) rest

/-- the machine has gone on from its boot and has put out these values on the way, which are in the
log and nothing else is -/
structure Since (image : Image) (memorySize : Nat) (d : Debugger) (outs : List Word) : Prop where
  origin : d.origin = (image, memorySize)
  advances : Advances (boot image memorySize) d.machine
  emitted : outs = (boot image memorySize).emitted d.machine.ticks
  log : d.log.writes = shownLines outs

section

variable {image : Image} {memorySize : Nat} {d : Debugger} {outs : List Word}

theorem Since.boot (origin : d.origin = (image, memorySize))
    (booted : d.machine = boot image memorySize) (log : d.log = {}) :
    Since image memorySize d [] where
  origin := origin
  advances := booted ▸ .refl _
  emitted := by
    rw [booted, ticks_boot]
    rfl
  log := by
    rw [log]
    rfl

theorem Since.shown (h : Since image memorySize d outs) : shown d.machine = shownLines outs := by
  have shown := shown_after image memorySize d.machine.ticks
  rwa [← eq_after_of_fresh h.advances, ← h.emitted] at shown

theorem Since.ask (h : Since image memorySize d outs) (c : Request) :
    Since image memorySize (d.ask c) (if c.resets then []
      else outs ++ d.machine.emitted ((d.ask c).machine.ticks - d.machine.ticks)) := by
  have origin := (d.origin_ask c).trans h.origin
  have moved := d.machine_ask c
  cases resets : c.resets with
  | true =>
    rw [if_pos resets] at moved
    obtain ⟨same, size⟩ := Prod.mk.inj h.origin
    refine .boot origin (by rw [moved, same, size]) ?_
    rw [ask_of_resets d resets, log_reset]
  | false =>
    have goes : ¬ c.resets := by simp [resets]
    rw [if_neg goes] at moved
    rw [if_neg (by simp)]
    have before := eq_after_of_fresh h.advances
    have later : (d.ask c).machine.ticks =
        d.machine.ticks + ((d.ask c).machine.ticks - d.machine.ticks) := by
      have := moved.eq_after.1
      omega
    have emitted : outs ++ d.machine.emitted ((d.ask c).machine.ticks - d.machine.ticks) =
        (Debugger.boot image memorySize).emitted (d.ask c).machine.ticks := by
      rw [h.emitted, later, Machine.emitted_add, ← before, Nat.add_sub_cancel_left]
    refine ⟨origin, h.advances.trans moved, emitted, ?_⟩
    have printed := shown_after image memorySize (d.ask c).machine.ticks
    rw [← eq_after_of_fresh (h.advances.trans moved), ← emitted, shownLines_append] at printed
    rw [(CarriesOn.ask d goes).log, printed, h.shown, OutputLog.writes_follow, h.log,
      shownLines_append]

theorem Since.foldl_ask (h : Since image memorySize d outs) (requests : List Request) :
    Since image memorySize (requests.foldl Debugger.ask d) (d.putOut outs requests) := by
  induction requests generalizing d outs with
  | nil => exact h
  | cons c rest ih => exact ih (h.ask c)

theorem Since.output (h : Since image memorySize d outs) (n : Nat) :
    d.output n = (outs.drop (outs.length - n)).map displayed := by
  have lines : Text.lines d.log.text = outs.map displayed := by
    have single : ∀ l ∈ outs.map displayed, '\n' ∉ l.toList := by
      intro l mem
      obtain ⟨v, -, rfl⟩ := List.mem_map.1 mem
      exact Instruction.newline_not_mem_decimal v.toInt
    rw [OutputLog.text, h.log, shownLines, List.reverse_reverse, ← Text.lines_join single,
      List.map_map]
    rfl
  rw [Debugger.output, OutputLog.lines, lines, List.length_map, List.map_drop]

end

/-- whatever is asked of the debugger, its output pane has the decimal texts of the last values put
out since the last reset, one for each output that the machine has completed, in order; to give up
the machine writes nothing to the log, and a reset leaves nothing in it -/
theorem output_tail (image : Image) (memorySize : Nat) (requests : List Request) (n : Nat) :
    let d := requests.foldl ask (.new image memorySize)
    let outs := putOut [] (.new image memorySize) requests
    d.output n = (outs.drop (outs.length - n)).map (fun v => Text.decimal v.toInt) ∧
      (d.output n).length = min n outs.length ∧
      d.machine = (boot image memorySize).after d.machine.ticks ∧
      outs = Machine.outputs ((boot image memorySize).executed d.machine.ticks) ∧
      d.halt.output n = d.output n ∧ d.reset.output n = [] := by
  intro d outs
  have start : Since image memorySize (.new image memorySize) [] := .boot rfl rfl rfl
  have since : Since image memorySize d outs := start.foldl_ask requests
  have again : Since image memorySize d.reset [] := since.ask .reset
  have started := eq_after_of_fresh since.advances
  refine ⟨since.output n, ?_, started, ?_, ?_, (again.output n).trans (by simp)⟩
  · rw [since.output n, List.length_map, List.length_drop]
    omega
  · rw [(Machine.written_executed (converses_boot image memorySize) _).2]
    exact since.emitted
  · rw [Debugger.output, log_halt, Debugger.output]

/-- what was printed ahead of a reset is gone, and what is in progress is not there yet -/
example :
    let image : Image := ⟨0, [.of .output, .of (.loadImmediate .io) 65534, .of .output]⟩
    let d := [.obey .step, .reset, .obey .run, .obey .tick, .obey .tick, .press .step,
      .press .tick].foldl ask (.new image 32)
    putOut [] (.new image 32) [.obey .step, .reset, .obey .run, .obey .tick, .obey .tick,
      .press .step, .press .tick] = [0, -2] ∧ d.machine.ticks = 23 := by
  decide +kernel

end Debugger
end OneBus
