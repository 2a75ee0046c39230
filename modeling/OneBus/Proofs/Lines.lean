import OneBus.Proofs.Traffic

/-!
A control word read line by line: which register it puts on the bus, which registers take the bus,
and in what order its drivers and latches come. Together with it, what the lines act on: registers
that take one value at once, a cell with a new value, a port table behind some transfers.
-/

namespace OneBus

namespace Register

/-- the line that puts the register on the bus -/
def outLine : Register → Signal
  | instruction => .instructionOut
  | programCounter => .programCounterOut
  | accumulator => .accumulatorOut
  | address => .addressOut
  | addressBackup => .addressBackupOut
  | a => .aOut
  | b => .bOut
  | io => .ioOut
  | flags => .flagsOut

/-- the lines on which the register takes the bus; `flags` has none -/
def inLines : Register → List Signal
  | instruction => [.instructionIn, .instructionParamIn]
  | programCounter => [.programCounterIn]
  | accumulator => [.accumulatorIn]
  | address => [.addressIn]
  | addressBackup => [.addressBackupIn]
  | a => [.aIn]
  | b => [.bIn]
  | io => [.ioIn]
  | flags => []

theorem drives_outLine (r : Register) : r.outLine.drives = some r := by cases r <;> rfl

end Register

/-- the registers of a set take a value at once -/
def RegisterBank.latched (bank : RegisterBank) (p : Register → Bool) (v : Word) : RegisterBank where
  instruction := if p .instruction then v else bank.instruction
  programCounter := if p .programCounter then v else bank.programCounter
  accumulator := if p .accumulator then v else bank.accumulator
  address := if p .address then v else bank.address
  addressBackup := if p .addressBackup then v else bank.addressBackup
  a := if p .a then v else bank.a
  b := if p .b then v else bank.b
  io := if p .io then v else bank.io
  flags := if p .flags then v else bank.flags

namespace RegisterBank

theorem get_latched (bank : RegisterBank) (p : Register → Bool) (v : Word) (r : Register) :
    (bank.latched p v).get r = if p r then v else bank.get r := by
  cases r <;> rfl

theorem latched_none (bank : RegisterBank) (v : Word) : bank.latched (fun _ => false) v = bank :=
  ext_get fun r => by rw [get_latched]; rfl

theorem latched_latched (bank : RegisterBank) (p q : Register → Bool) (v : Word) :
    (bank.latched p v).latched q v = bank.latched (fun r => p r || q r) v := by
  refine ext_get fun r => ?_
  simp only [get_latched]
  cases p r <;> cases q r <;> rfl

theorem set_eq_latched (bank : RegisterBank) (r : Register) (v : Word) :
    bank.set r v = bank.latched (· = r) v :=
  ext_get fun s => by simp only [get_set, get_latched, decide_eq_true_eq]

end RegisterBank

namespace ControlWord

/-- the register that the bus comes from: the last one in the order of the bank -/
def source? (w : ControlWord) : Option Register :=
  (Register.all.filter fun r => w.contains r.outLine).getLast?

/-- a register takes the bus -/
def takes (w : ControlWord) (r : Register) : Bool := r.inLines.any w.contains

theorem unitDrivers_eq (w : ControlWord) :
    w.unitDrivers = [.memoryOut, .aluEnable, .peripheralOut].filter w.contains := by
  rw [unitDrivers, toList, List.filter_comm]
  rfl

theorem registerDrivers_eq (w : ControlWord) :
    w.registerDrivers =
      (Register.all.filter fun r => w.contains r.outLine).map Register.outLine := by
  have lines : Signal.all.filter (·.drives.isSome) = Register.all.map Register.outLine := rfl
  rw [registerDrivers, toList, List.filter_comm, lines, List.filter_map]
  rfl

/-- the latches of registers that do not decode -/
def plainLatches : List Signal :=
  [.instructionParamIn, .programCounterIn, .accumulatorIn, .addressIn, .addressBackupIn,
   .aIn, .bIn, .ioIn]

theorem latchers_eq_append (w : ControlWord) :
    w.latchers = [.instructionIn].filter w.contains ++ plainLatches.filter w.contains ++
      [.flagsIn, .memoryIn, .peripheralIn].filter w.contains := by
  rw [latchers, toList, List.filter_comm, ← List.filter_append, ← List.filter_append]
  rfl

theorem takes_eq (w : ControlWord) : w.takes = fun r =>
    (w.contains .instructionIn && decide (r = .instruction)) ||
      (plainLatches.filter w.contains).any fun s => decide (s.latches = some r) := by
  funext r
  cases r <;> simp [takes, Register.inLines, plainLatches, List.any_filter, Signal.latches]

theorem loadsAlu_eq (w : ControlWord) : w.loadsAlu = (w.takes .a || w.takes .b) := by
  simp [loadsAlu, takes, Register.inLines]

end ControlWord

namespace PortTable

variable {δ : Type} [Peripheral δ]

/-- the table behind some transfers: each port has got its own -/
def reached (t : PortTable δ) (xs : List Transfer) : PortTable δ where
  slots := (t.ports.mapIdx fun p port => xs.foldl (Transfer.deliver p) port).map some
  traffic := t.traffic ++ xs
  full := full_of_ports _

theorem ports_reached (t : PortTable δ) (xs : List Transfer) :
    (t.reached xs).ports = t.ports.mapIdx fun p port => xs.foldl (Transfer.deliver p) port :=
  ports_of_slots rfl

theorem traffic_reached (t : PortTable δ) (xs : List Transfer) :
    (t.reached xs).traffic = t.traffic ++ xs := rfl

theorem reached_nil (t : PortTable δ) : t.reached [] = t := by
  refine ext_ports ?_ (by simp [traffic_reached])
  exact List.ext_getElem? fun p => by
    rw [ports_reached, List.getElem?_mapIdx]
    exact Option.map_id'

theorem reached_reached (t : PortTable δ) (xs ys : List Transfer) :
    (t.reached xs).reached ys = t.reached (xs ++ ys) := by
  refine ext_ports ?_ ?_
  · simp only [ports_reached, List.mapIdx_mapIdx, Function.comp_def, List.foldl_append]
  · exact Array.toList_inj.1 (by simp only [traffic_reached, Array.toList_appendList,
      List.append_assoc])

theorem select?_reached (t : PortTable δ) (xs : List Transfer) (selector : Word) :
    (t.reached xs).select? selector =
      (t.select? selector).map fun x => (x.1, xs.foldl (Transfer.deliver x.1) x.2) := by
  rw [select?_eq, select?_eq, Option.map_bind]
  congr 1
  funext p
  simp only [ports_reached, List.getElem?_mapIdx, Function.comp_apply, Option.map_map]
  rfl

theorem exists_select?_reached {t : PortTable δ} {xs : List Transfer} {selector : Word} :
    (∃ port, (t.reached xs).select? selector = some port) ↔
      ∃ port, t.select? selector = some port := by
  rw [select?_reached]
  cases t.select? selector <;> simp

theorem length_reached (t : PortTable δ) (xs : List Transfer) :
    (t.reached xs).length = t.length := by
  rw [length_eq, length_eq, ports_reached, List.length_mapIdx]

theorem record_eq_reached {t : PortTable δ} {port : Port δ} {x : Transfer}
    (there : t.ports[x.port]? = some port) : t.record port x = t.reached [x] := by
  refine ext_ports (List.ext_getElem? fun p => (getElem?_record there p).trans ?_)
    (Array.toList_inj.1 ?_)
  · rw [ports_reached, List.getElem?_mapIdx]
    rfl
  · rw [traffic_record, traffic_reached, Array.toList_appendList]

theorem disconnectAll_eq_reached (t : PortTable δ) :
    t.disconnectAll = t.reached ((List.range t.length).map .disconnected) := by
  refine ext_ports (List.ext_getElem? fun p => ?_) rfl
  rw [ports_disconnectAll, ports_reached, List.getElem?_mapIdx, List.getElem?_map]
  cases there : t.ports[p]? with
  | none => rfl
  | some port =>
    rw [Option.map_some, Option.map_some, Transfer.foldl_deliver_disconnects,
      if_pos (lt_length there)]
    rfl

end PortTable

/-- the memory with a value in one cell -/
def Memory.put (m : Memory) (a v : Word) : Memory := ⟨m.cells.setIfInBounds a.toNat v⟩

end OneBus
