import OneBus.Device
import OneBus.Proofs.Traffic

/-!
What a machine prints, and whether it can be printed, is never noticed by the machine. Displays and
typewriters answer every input with 0, whatever they print to, so to the machine each of them is a
blank device. A map of devices that goes along with all that devices do goes along with ticks, steps,
runs and all other calls as well: `Shadows`. So a machine with printing devices shadows one with blank
devices, and any two with as many of them shadow the same one.
-/

namespace OneBus

/-- a place to print to, which may refuse any text and any flush, with a reason. What it has become
is then left to it; it may answer by what it was sent, or by what it has prepared for each call, as
one that others print to as well would. Outlets of several types are one type, their sum. -/
class Outlet (σ : Type) where
  print : σ → String → σ × Option String
  flush : σ → σ × Option String

instance : Outlet Sink where
  print s more :=
    match s.print? more with
    | some s => (s, none)
    | none => (s, some "sink full")
  flush s := (s.flush, none)

/-- a device that prints what it is sent, to whatever outlet -/
inductive Printing (σ : Type)
  | display (outlet : σ)
  | typewriter (outlet : σ)

namespace Printing

/-- what a device has to say about a write: a note, and the reason if the outlet refused -/
def remarks (note : Note) (name : String) : Option String → List Note
  | none => [note]
  | some reason => [note, ⟨.warn, name ++ " output failed: " ++ reason⟩]

section

variable {σ : Type} [Outlet σ]

/-- prints, and flushes what was taken -/
def printFlushed (outlet : σ) (more : String) : σ × Option String :=
  match Outlet.print outlet more with
  | (outlet, none) => Outlet.flush outlet
  | refused => refused

def write : Printing σ → Word → Printing σ × List Note
  | display outlet, value =>
    let (outlet, refusal) := Outlet.print outlet (Device.displayed value ++ "\n")
    (display outlet, remarks ⟨.info, "display: " ++ Device.displayed value⟩ "display" refusal)
  | typewriter outlet, value =>
    let (outlet, refusal) := printFlushed outlet (Device.typed value).toString
    (typewriter outlet,
      remarks ⟨.debug, "typewriter: " ++ Text.quoted (Device.typed value)⟩ "typewriter" refusal)

def drive (p : Printing σ) : Word × Printing σ := (0, p)

/-- a refused flush is passed over -/
def disconnect : Printing σ → Printing σ
  | display outlet => display (Outlet.flush outlet).1
  | typewriter outlet => typewriter (Outlet.flush outlet).1

instance : Peripheral (Printing σ) := ⟨write, drive, disconnect⟩

end

/-- the device that prints to a sink -/
def device : Printing Sink → Device
  | display sink => .display sink
  | typewriter sink => .typewriter sink

theorem write_device (p : Printing Sink) (value : Word) :
    p.device.write value = ((p.write value).1.device, (p.write value).2) := by
  cases p with
  | display sink =>
    simp only [device, Device.write, write, Outlet.print]
    cases sink.print? (Device.displayed value ++ "\n") <;> rfl
  | typewriter sink =>
    simp only [device, Device.write, write, printFlushed, Outlet.print]
    cases sink.print? (Device.typed value).toString <;> rfl

end Printing

/-- a device that does nothing and answers with 0 -/
inductive Blank
  | mk
  deriving DecidableEq

instance : Peripheral Blank := ⟨fun b _ => (b, []), fun b => (0, b), id⟩

/-- a map of devices that goes along with all that they do, their notes apart -/
structure Carries {δ ε : Type} [Peripheral δ] [Peripheral ε] (f : δ → ε) : Prop where
  write (d : δ) (value : Word) : (Peripheral.write (f d) value).1 = f (Peripheral.write d value).1
  drive (d : δ) : Peripheral.drive (f d) = ((Peripheral.drive d).1, f (Peripheral.drive d).2)
  disconnect (d : δ) : Peripheral.disconnect (f d) = f (Peripheral.disconnect d)

namespace Printing

/-- to the machine, a printing device is as good as none -/
theorem carries_blank {σ : Type} [Outlet σ] : Carries fun _ : Printing σ => Blank.mk :=
  ⟨fun _ _ => rfl, fun _ => rfl, fun _ => rfl⟩

theorem carries_device : Carries device where
  write p value := congrArg Prod.fst (write_device p value)
  drive p := by cases p <;> rfl
  disconnect p := by cases p <;> rfl

end Printing

variable {δ ε : Type} {f : δ → ε}

namespace PortTable

theorem select?_map (t : PortTable δ) (selector : Word) :
    (t.map f).select? selector = (t.select? selector).map fun (i, p) => (i, p.map f) := by
  rw [select?_eq, select?_eq]
  cases selector.index? with
  | none => rfl
  | some i =>
    simp only [ports_map, Option.bind_some, List.getElem?_map, Option.map_map]
    rfl

variable [Peripheral δ] [Peripheral ε]

theorem record_map (carries : Carries f) (t : PortTable δ) (port : Port δ) (x : Transfer) :
    (t.map f).record (port.map f) x = (t.record port x).map f := by
  have reached : x.reach (port.map f) = (x.reach port).map f := by
    cases x with
    | written _ value => exact congrArg (Port.mk · value) (carries.write port.device value)
    | driven _ _ => exact congrArg (Port.mk ·.2 port.value) (carries.drive port.device)
    | disconnected _ => exact congrArg (Port.mk · port.value) (carries.disconnect port.device)
  exact ext_ports (by simp [ports_record, List.map_set, reached]) rfl

theorem write_map (carries : Carries f) (t : PortTable δ) (selector value : Word) :
    Agree Eq (fun a b => b.1 = a.1.map f)
      (t.write selector value) ((t.map f).write selector value) := by
  rw [write, write, select?_map]
  cases t.select? selector with
  | none => exact rfl
  | some found => exact record_map carries t found.2 (.written found.1 value)

theorem drive_map (carries : Carries f) (t : PortTable δ) (selector : Word) :
    Agree Eq (fun a b => b = (a.1, a.2.map f)) (t.drive selector) ((t.map f).drive selector) := by
  rw [drive, drive, select?_map]
  cases t.select? selector with
  | none => exact rfl
  | some found =>
    obtain ⟨i, port⟩ := found
    have answer : (Peripheral.drive (port.map f).device).1 = (Peripheral.drive port.device).1 :=
      congrArg Prod.fst (carries.drive port.device)
    have moved := record_map carries t port (.driven i (Peripheral.drive port.device).1)
    exact Prod.ext answer (answer ▸ moved)

omit [Peripheral δ] [Peripheral ε] in
theorem attach_map (t : PortTable δ) (device : δ) :
    (t.map f).attach (f device) = (t.attach device).map f := by
  refine ext_ports (by simp [Port.map]) ?_
  rw [traffic_attach]
  exact (t.traffic_attach device).symm

theorem disconnectAll_map (carries : Carries f) (t : PortTable δ) :
    (t.map f).disconnectAll = t.disconnectAll.map f := by
  refine ext_ports ?_ (by rw [disconnectAll, length_map]; rfl)
  rw [ports_disconnectAll, ports_map, ports_map, ports_disconnectAll, List.map_map, List.map_map]
  exact List.map_congr_left fun p _ => by simp [Port.map, carries.disconnect]

end PortTable

namespace Machine

/-- the call with another device in place of one that it attaches -/
def Action.map (f : δ → ε) : Action δ → Action ε
  | .tick => .tick
  | .step => .step
  | .run limit => .run limit
  | .runOn clock limit => .runOn clock limit
  | .enqueue program => .enqueue program
  | .halt => .halt
  | .attach device => .attach (f device)
  | .load image => .load image
  | .poke address value => .poke address value
  | .setRegister r value => .setRegister r value

/-- what a call gives back -/
inductive Reply
  | ticked (outcome : Except MachineError TickReport)
  | stepped (outcome : Except MachineError (Option Opcode))
  | ran (outcome : Option (Except MachineError Nat))
  | attached (port : Nat)
  | poked (refusal : Option MemoryError)
  | done

/-- what the machine gives back to a call -/
def reply [Peripheral δ] (m : Machine δ) : Action δ → Reply
  | .tick => .ticked m.tick.2
  | .step => .stepped m.step.2
  | .run limit => .ran (m.run limit).2
  | .runOn clock limit => .ran (m.runOn clock limit).2
  | .attach device => .attached (m.ports.plug device).1
  | .poke address value =>
    match m.poke address value with
    | .ok _ => .poked none
    | .error e => .poked (some e)
  | _ => .done

/-- what the machine gives back to one call after the other -/
def replies [Peripheral δ] (m : Machine δ) : List (Action δ) → List Reply
  | [] => []
  | call :: calls => m.reply call :: (m.act call).replies calls

/-- the machine behind calls that attach no device -/
def behind [Peripheral δ] (m : Machine δ) (calls : List (Action Empty)) : Machine δ :=
  (calls.map (Action.map Empty.elim)).foldl act m

/-- what the machine gives back to calls that attach no device -/
def replied [Peripheral δ] (m : Machine δ) (calls : List (Action Empty)) : List Reply :=
  m.replies (calls.map (Action.map Empty.elim))

/-- the machine with other devices, and with an empty journal -/
def through (f : δ → ε) (m : Machine δ) : Machine ε :=
  { registers := m.registers, memory := m.memory, bus := m.bus, alu := m.alu,
    operation := m.operation, ports := m.ports.map f, queue := m.queue, phase := m.phase,
    condition := m.condition, current := m.current, lastBus := m.lastBus, ticks := m.ticks,
    instructions := m.instructions }

/-- all of a machine but its devices and its journal -/
def face (m : Machine δ) : Machine Blank := m.through fun _ => .mk

/-- `m` is `n` but for devices and journal, with the devices of `m` those of `n` under the map -/
def Shadows (f : δ → ε) (m : Machine δ) (n : Machine ε) : Prop :=
  ∃ journal, n = { m.through f with journal }

end Machine

def Failure.Shadows (f : δ → ε) (x : Failure δ) (y : Failure ε) : Prop :=
  x.machine.Shadows f y.machine ∧ x.error = y.error

namespace Machine

variable {m : Machine δ} {n : Machine ε}

/-- the machines shadow one another, and the answers are the same -/
def SameAnswer (f : δ → ε) {β : Type} (x : Machine δ × β) (y : Machine ε × β) : Prop :=
  x.1.Shadows f y.1 ∧ x.2 = y.2

theorem SameAnswer.exists {β : Type} {x : Machine δ × β} {y : Machine ε × β}
    (h : SameAnswer f x y) : ∃ m n b, x = (m, b) ∧ y = (n, b) ∧ Shadows f m n :=
  ⟨x.1, y.1, x.2, rfl, Prod.ext rfl h.2.symm, h.1⟩

theorem Shadows.attach (h : Shadows f m n) (device : δ) :
    Shadows f (m.attach device) (n.attach (f device)) := by
  obtain ⟨journal, rfl⟩ := h
  refine ⟨journal.push (.attached m.ports.length), ?_⟩
  simp only [Machine.attach_eq, note, through, PortTable.attach_map, PortTable.length_map]

theorem Shadows.load (h : Shadows f m n) (image : Image) :
    Shadows f (m.load image) (n.load image) := by
  obtain ⟨journal, rfl⟩ := h
  have size : { m.through f with journal }.memory.size = m.memory.size := rfl
  unfold Machine.load
  dsimp only
  rw [size]
  by_cases cut : image.bytes.length > m.memory.size
  · rw [if_pos cut, if_pos cut]
    exact ⟨_, rfl⟩
  · rw [if_neg cut, if_neg cut]
    exact ⟨_, rfl⟩

theorem shadows_boot (image : Image) (memorySize : Nat) (devices : List δ) :
    Shadows f (boot image memorySize devices) (boot image memorySize (devices.map f)) := by
  have attached {m : Machine δ} {n : Machine ε} (h : Shadows f m n) :
      Shadows f (devices.foldl Machine.attach m) ((devices.map f).foldl Machine.attach n) := by
    induction devices generalizing m n with
    | nil => exact h
    | cons device devices ih => exact ih (h.attach device)
  have bare : Shadows f (new memorySize) (new memorySize) := ⟨#[], rfl⟩
  exact attached (bare.load image)

theorem Shadows.face (h : Shadows f m n) : n.face = m.face := by
  obtain ⟨journal, rfl⟩ := h
  simp only [Machine.face, through, PortTable.map_map, Function.comp_def]

section

variable [Peripheral δ] [Peripheral ε] (carries : Carries f)

include carries

theorem Shadows.drive (h : Shadows f m n) (s : Signal) :
    Agree (Failure.Shadows f) (Shadows f) (m.drive s) (n.drive s) := by
  obtain ⟨journal, rfl⟩ := h
  cases s with
  | memoryOut =>
    simp only [Machine.drive, through]
    cases m.memory.read m.registers.address with
    | error e => exact ⟨⟨_, rfl⟩, rfl⟩
    | ok bus => exact ⟨_, rfl⟩
  | peripheralOut =>
    simp only [Machine.drive, through]
    obtain ⟨e, _, left, right, rfl⟩ | ⟨answer, _, left, right, rfl⟩ :=
      (PortTable.drive_map carries m.ports m.registers.b).cases
    · rw [left, right]
      exact ⟨⟨_, rfl⟩, rfl⟩
    · rw [left, right]
      exact ⟨_, rfl⟩
  | _ => exact ⟨_, rfl⟩

theorem Shadows.latch (h : Shadows f m n) (a : Word) (s : Signal) :
    Agree (Failure.Shadows f) (Shadows f) (m.latch a s) (n.latch a s) := by
  obtain ⟨journal, rfl⟩ := h
  cases s with
  | memoryIn =>
    simp only [Machine.latch, through]
    cases m.memory.write a m.bus with
    | error e => exact ⟨⟨_, rfl⟩, rfl⟩
    | ok memory => exact ⟨_, rfl⟩
  | peripheralIn =>
    simp only [Machine.latch, through]
    obtain ⟨e, _, left, right, rfl⟩ | ⟨⟨ports, notes⟩, ⟨_, notes'⟩, left, right, rfl⟩ :=
      (PortTable.write_map carries m.ports a m.bus).cases
    · rw [left, right]
      exact ⟨⟨_, rfl⟩, rfl⟩
    · rw [left, right]
      exact ⟨_, rfl⟩
  | instructionIn =>
    simp only [Machine.latch, decode, latchRegister, through]
    cases Opcode.ofId? (m.registers.set .instruction m.bus).instruction with
    | none => exact ⟨⟨_, rfl⟩, rfl⟩
    | some op => exact ⟨_, rfl⟩
  | _ => exact ⟨_, rfl⟩

theorem Shadows.stop (h : Shadows f m n) (condition : Condition) :
    Shadows f (m.stop condition) (n.stop condition) := by
  obtain ⟨journal, rfl⟩ := h
  refine ⟨journal, ?_⟩
  simp only [Machine.stop, through, PortTable.disconnectAll_map carries]

theorem Shadows.finish (h : Shadows f m n) (w : ControlWord) :
    Shadows f (m.finish w) (n.finish w) := by
  obtain ⟨journal, rfl⟩ := h
  unfold Machine.finish
  cases w.contains .halt with
  | false => cases w.contains .programCounterIncrement <;> exact ⟨_, rfl⟩
  | true =>
    cases w.contains .programCounterIncrement <;>
      exact Shadows.stop carries ⟨_, rfl⟩ .halted

theorem Shadows.assert (h : Shadows f m n) (w : ControlWord) :
    Agree (Failure.Shadows f) (Shadows f) (m.assert w) (n.assert w) := by
  have address : n.registers.address = m.registers.address := by
    obtain ⟨_, rfl⟩ := h
    rfl
  unfold Machine.assert
  rw [address]
  refine (Agree.foldlM _ (fun s _ _ _ h => h.drive carries s) h).bind fun m n h => ?_
  refine (Agree.foldlM _ (fun s _ _ _ h => h.latch carries _ s) h).bind fun m n h => ?_
  exact h.finish carries w

theorem Shadows.conclude {x : Except (Failure δ) (Machine δ)} {y : Except (Failure ε) (Machine ε)}
    (w : ControlWord) (h : Agree (Failure.Shadows f) (Shadows f) x y) :
    SameAnswer f (conclude w x) (conclude w y) := by
  obtain ⟨⟨m, e⟩, ⟨_, _⟩, rfl, rfl, ⟨journal, rfl⟩, rfl⟩ | ⟨m, _, rfl, rfl, ⟨journal, rfl⟩⟩ := h.cases
  · have faulted : Shadows f (m.settle.note (.faulted m.settle.ticks e))
        ({ m.through f with journal }.settle.note (.faulted m.settle.ticks e)) := ⟨_, rfl⟩
    exact ⟨faulted.stop carries .faulted, rfl⟩
  · exact ⟨⟨_, rfl⟩, rfl⟩

theorem Shadows.tick (h : Shadows f m n) : SameAnswer f m.tick n.tick := by
  obtain ⟨journal, rfl⟩ := h
  by_cases running : m.isRunning
  · have begun : Shadows f (m.begun.note (.tick m.ticks m.word))
        ({ m.through f with journal }.begun.note (.tick m.ticks m.word)) := ⟨_, rfl⟩
    rw [tick_running running, tick_running (m := { m.through f with journal }) running]
    exact Shadows.conclude carries m.word (begun.assert carries m.word)
  · rw [tick_stopped running, tick_stopped (m := { m.through f with journal }) running]
    exact ⟨⟨_, rfl⟩, rfl⟩

theorem Shadows.stepWithin (h : Shadows f m n) (bound : Nat) (last : Option Opcode) :
    SameAnswer f (stepWithin bound last m) (stepWithin bound last n) := by
  induction bound generalizing m n last with
  | zero => exact ⟨h, rfl⟩
  | succ bound ih =>
    obtain ⟨m', n', outcome, left, right, ticked⟩ := (h.tick carries).exists
    rw [stepWithin_succ, stepWithin_succ, left, right]
    cases outcome with
    | error e => exact ⟨ticked, rfl⟩
    | ok report =>
      have next := ih ticked (report.decoded <|> last)
      obtain ⟨journal, rfl⟩ := ticked
      unfold goOn
      dsimp only
      split
      · rw [if_pos ‹_›]
        exact ⟨⟨_, rfl⟩, rfl⟩
      · rw [if_neg ‹_›]
        exact next

theorem Shadows.step (h : Shadows f m n) : SameAnswer f m.step n.step := by
  have work : n.work = m.work := by
    obtain ⟨_, rfl⟩ := h
    rfl
  rw [Machine.step, Machine.step, work]
  exact h.stepWithin carries m.work none

theorem Shadows.issue (h : Shadows f m n) (limited : Bool) (left issued : Nat) :
    SameAnswer f (Clock.issue (fun _ => beat) limited left issued m).swap
      (Clock.issue (fun _ => beat) limited left issued n).swap := by
  induction left generalizing m n issued with
  | zero => exact ⟨h, rfl⟩
  | succ left ih =>
    obtain ⟨m', n', outcome, left, right, ticked⟩ := (h.tick carries).exists
    rw [Clock.issue_succ, Clock.issue_succ, beat, beat, left, right]
    cases outcome with
    | error e => exact ⟨ticked, rfl⟩
    | ok report =>
      have next := ih ticked (issued + 1)
      obtain ⟨journal, rfl⟩ := ticked
      have runs : { m'.through f with journal }.isRunning = m'.isRunning := rfl
      dsimp only
      rw [runs]
      cases m'.isRunning with
      | false => exact ⟨⟨_, rfl⟩, rfl⟩
      | true => exact next

theorem Shadows.runOn (h : Shadows f m n) (clock : Clock) (limit : Option Nat) :
    SameAnswer f (m.runOn clock limit) (n.runOn clock limit) := by
  rw [Machine.runOn, Machine.runOn, Clock.run_noWait, Clock.run_noWait]
  exact h.issue carries _ _ 0

theorem Shadows.halt (h : Shadows f m n) : Shadows f m.halt n.halt := by
  have runs : n.isRunning = m.isRunning := by
    obtain ⟨_, rfl⟩ := h
    rfl
  rw [Machine.halt, Machine.halt, runs]
  split
  · exact h.stop carries .halted
  · exact h

theorem Shadows.act (h : Shadows f m n) (call : Action δ) :
    SameAnswer f (m.act call, m.reply call) (n.act (call.map f), n.reply (call.map f)) := by
  cases call with
  | tick =>
    obtain ⟨ticked, same⟩ := h.tick carries
    exact ⟨ticked, congrArg Reply.ticked same⟩
  | step =>
    obtain ⟨stepped, same⟩ := h.step carries
    exact ⟨stepped, congrArg Reply.stepped same⟩
  | run limit =>
    obtain ⟨ran, same⟩ := h.runOn carries .unthrottled limit
    exact ⟨ran, congrArg Reply.ran same⟩
  | runOn clock limit =>
    obtain ⟨ran, same⟩ := h.runOn carries clock limit
    exact ⟨ran, congrArg Reply.ran same⟩
  | halt => exact ⟨h.halt carries, rfl⟩
  | attach device =>
    have same : (n.ports.plug (f device)).1 = (m.ports.plug device).1 := by
      obtain ⟨_, rfl⟩ := h
      rw [PortTable.plug_eq, PortTable.plug_eq]
      exact PortTable.length_map f m.ports
    exact ⟨h.attach device, congrArg Reply.attached same.symm⟩
  | load image => exact ⟨h.load image, rfl⟩
  | poke address value =>
    obtain ⟨journal, rfl⟩ := h
    simp only [Machine.act, Action.map, reply, poke, through]
    cases m.memory.write address value <;> exact ⟨⟨_, rfl⟩, rfl⟩
  | enqueue | setRegister =>
    obtain ⟨journal, rfl⟩ := h
    exact ⟨⟨_, rfl⟩, rfl⟩

theorem Shadows.calls (h : Shadows f m n) (calls : List (Action δ)) :
    Shadows f (calls.foldl Machine.act m) ((calls.map (Action.map f)).foldl Machine.act n) ∧
      m.replies calls = n.replies (calls.map (Action.map f)) := by
  induction calls generalizing m n with
  | nil => exact ⟨h, rfl⟩
  | cons call calls ih =>
    obtain ⟨next, same⟩ := h.act carries call
    obtain ⟨last, rest⟩ := ih next
    exact ⟨last, congrArg₂ List.cons same rest⟩

theorem same_behind (image : Image) (memorySize : Nat) (devices : List δ)
    (calls : List (Action Empty)) :
    let m := boot image memorySize devices
    let n := boot image memorySize (devices.map f)
    (n.behind calls).face = (m.behind calls).face ∧ n.replied calls = m.replied calls := by
  intro m n
  have common : (calls.map (Action.map Empty.elim)).map (Action.map f) =
      calls.map (Action.map Empty.elim) := by
    rw [List.map_map]
    refine List.map_congr_left fun call _ => ?_
    cases call with
    | attach device => exact device.elim
    | _ => rfl
  have shadows : Shadows f m n := shadows_boot image memorySize devices
  obtain ⟨last, same⟩ := shadows.calls carries (calls.map (Action.map Empty.elim))
  rw [common] at last same
  exact ⟨last.face, same.symm⟩

end

/-- a display or a typewriter on each port, chosen at will and printing to whatever outlets: behind
the same calls, all such machines are the same but for their devices and their journals, and they
have given the same answers. The devices of this library are among them. -/
theorem printing_unnoticed {σ τ : Type} [Outlet σ] [Outlet τ] (image : Image) (memorySize : Nat)
    {ports : Nat} (left : Fin ports → Printing σ) (right : Fin ports → Printing τ)
    (own : Fin ports → Printing Sink) (calls : List (Action Empty)) :
    let m := boot image memorySize (List.ofFn left)
    let n := boot image memorySize (List.ofFn right)
    let o := boot image memorySize (List.ofFn fun port => (own port).device)
    (m.behind calls).face = (n.behind calls).face ∧ m.replied calls = n.replied calls ∧
      (m.behind calls).face = (o.behind calls).face ∧ m.replied calls = o.replied calls := by
  intro m n o
  have blank {υ : Type} [Outlet υ] (devices : Fin ports → Printing υ) :=
    same_behind Printing.carries_blank image memorySize (List.ofFn devices) calls
  have actual := same_behind Printing.carries_device image memorySize (List.ofFn own) calls
  simp only [List.map_ofFn] at blank actual
  obtain ⟨leftFace, leftReplied⟩ := blank left
  obtain ⟨rightFace, rightReplied⟩ := blank right
  obtain ⟨ownFace, ownReplied⟩ := blank own
  obtain ⟨face, replied⟩ := actual
  refine ⟨leftFace.symm.trans rightFace, leftReplied.symm.trans rightReplied, ?_, ?_⟩
  · exact leftFace.symm.trans (ownFace.trans face.symm)
  · exact leftReplied.symm.trans (ownReplied.trans replied.symm)

end Machine
end OneBus
