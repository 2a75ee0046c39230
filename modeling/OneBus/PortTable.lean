import OneBus.Peripheral

/-!
The table of ports. A device gets the first slot that is free, otherwise a new one, and its number is
that of the slot. No device is ever taken off, so the table carries with it that no slot is free, and
numbers go from 0 in order of attachment. The table also keeps the traffic: every transfer that
reached a device, in order.
-/

namespace OneBus

structure PortTable (δ : Type) where
  /-- by number, with `none` for a slot that is free -/
  slots : List (Option (Port δ)) := []
  traffic : Array Transfer := #[]
  /-- a device is never taken off -/
  full : ∀ slot ∈ slots, slot.isSome := by simp

/-- no device sits on the port -/
structure PortError where
  port : Word
  deriving DecidableEq

def PortError.message (e : PortError) : String :=
  "no peripheral registered on port " ++ Text.decimal e.port.toInt

namespace PortTable

variable {δ ε : Type}

section slots

variable (t : PortTable δ)

/-- the number of devices -/
def length : Nat := t.slots.countP Option.isSome

/-- the first free slot, otherwise the next one -/
def nextId : Nat := (t.slots.findIdx? Option.isNone).getD t.slots.length

/-- what sits on the ports, in their order -/
def ports : List (Port δ) := t.slots.filterMap id

def devices : List δ := t.ports.map Port.device

def value? (port : Nat) : Option Word := t.slots[port]?.join.map Port.value

/-- each port with what was last written to it -/
def values : List (Nat × Word) :=
  t.slots.zipIdx.filterMap fun (slot, i) => slot.map fun port => (i, port.value)

def select? (selector : Word) : Option (Nat × Port δ) :=
  selector.index?.bind fun i => t.slots[i]?.join.map (i, ·)

end slots

theorem full_of_ports (ports : List (Port δ)) : ∀ slot ∈ ports.map some, slot.isSome := by
  intro slot mem
  obtain ⟨port, -, rfl⟩ := List.mem_map.1 mem
  rfl

theorem full_set (t : PortTable δ) (i : Nat) (port : Port δ) :
    ∀ slot ∈ t.slots.set i (some port), slot.isSome := by
  intro slot mem
  rcases List.mem_or_eq_of_mem_set mem with old | rfl
  · exact t.full slot old
  · rfl

theorem full_concat (t : PortTable δ) (port : Port δ) :
    ∀ slot ∈ t.slots ++ [some port], slot.isSome := by
  intro slot mem
  rcases List.mem_append.1 mem with old | new
  · exact t.full slot old
  · rw [List.mem_singleton.1 new]
    rfl

theorem full_map (t : PortTable δ) (f : Port δ → Port ε) :
    ∀ slot ∈ t.slots.map (Option.map f), slot.isSome := by
  intro slot mem
  obtain ⟨old, there, rfl⟩ := List.mem_map.1 mem
  rw [Option.isSome_map]
  exact t.full old there

/-- something else on a slot -/
def put (t : PortTable δ) (i : Nat) (port : Port δ) : PortTable δ :=
  { t with slots := t.slots.set i (some port), full := t.full_set i port }

/-- a slot behind the others -/
def push (t : PortTable δ) (port : Port δ) : PortTable δ :=
  { t with slots := t.slots ++ [some port], full := t.full_concat port }

/-- the same ports and the same traffic, with other devices -/
def map (f : δ → ε) (t : PortTable δ) : PortTable ε where
  slots := t.slots.map (Option.map (Port.map f))
  traffic := t.traffic
  full := t.full_map (Port.map f)

/-- notes a transfer -/
def tell (t : PortTable δ) (x : Transfer) : PortTable δ := { t with traffic := t.traffic.push x }

/-- puts a device on the first free slot, or on a new one; gives its number -/
def plug (t : PortTable δ) (device : δ) : Nat × PortTable δ :=
  let id := t.nextId
  (id, if id = t.slots.length then t.push ⟨device, 0⟩ else t.put id ⟨device, 0⟩)

def attach (t : PortTable δ) (device : δ) : PortTable δ := (t.plug device).2

def write [Peripheral δ] (t : PortTable δ) (selector value : Word) :
    Except PortError (PortTable δ × List Note) :=
  match t.select? selector with
  | some (i, port) =>
    let (device, notes) := Peripheral.write port.device value
    .ok ((t.put i ⟨device, value⟩).tell (.written i value), notes)
  | none => .error ⟨selector⟩

def drive [Peripheral δ] (t : PortTable δ) (selector : Word) :
    Except PortError (Word × PortTable δ) :=
  match t.select? selector with
  | some (i, port) =>
    let (value, device) := Peripheral.drive port.device
    .ok (value, (t.put i { port with device }).tell (.driven i value))
  | none => .error ⟨selector⟩

def disconnectAll [Peripheral δ] (t : PortTable δ) : PortTable δ :=
  { t.map Peripheral.disconnect with
    traffic := t.traffic ++ (List.range t.length).map Transfer.disconnected }

def text (t : PortTable δ) : String :=
  let entry (p : Nat × Word) := Text.decimal p.1 ++ ": " ++ Text.decimal p.2.toInt
  "\x7b" ++ String.intercalate ", " (t.values.map entry) ++ "\x7d"

/-- the slots are the ports -/
theorem slots_eq (t : PortTable δ) : t.slots = t.ports.map some := by
  obtain ⟨slots, traffic, full⟩ := t
  change slots = (slots.filterMap id).map some
  induction slots with
  | nil => rfl
  | cons slot rest ih =>
    obtain ⟨there, others⟩ := List.forall_mem_cons.1 full
    obtain ⟨port, rfl⟩ := Option.isSome_iff_exists.1 there
    exact congrArg (some port :: ·) (ih others)

theorem ports_of_slots {t : PortTable δ} {ports : List (Port δ)} (h : t.slots = ports.map some) :
    t.ports = ports := by
  rw [PortTable.ports, h, List.filterMap_map]
  exact List.filterMap_some

theorem ext_ports {t u : PortTable δ} (ports : t.ports = u.ports) (traffic : t.traffic = u.traffic) :
    t = u := by
  have slots : t.slots = u.slots := by rw [slots_eq, slots_eq, ports]
  cases t
  cases u
  cases slots
  cases traffic
  rfl

theorem length_slots (t : PortTable δ) : t.slots.length = t.ports.length := by
  rw [slots_eq, List.length_map]

theorem length_eq (t : PortTable δ) : t.length = t.ports.length := by
  rw [length, slots_eq, List.countP_map]
  exact List.countP_eq_length.2 fun _ _ => rfl

theorem lt_length {t : PortTable δ} {p : Nat} {port : Port δ} (there : t.ports[p]? = some port) :
    p < t.length :=
  t.length_eq ▸ (List.getElem?_eq_some_iff.1 there).1

/-- no slot is free, so the next number is the number of devices -/
theorem nextId_eq (t : PortTable δ) : t.nextId = t.length := by
  have none : t.slots.findIdx? Option.isNone = none := by
    rw [List.findIdx?_eq_none_iff]
    intro slot mem
    rw [← Option.not_isSome, t.full slot mem]
    rfl
  rw [nextId, none, Option.getD_none, length_slots, length_eq]

theorem getElem?_slots (t : PortTable δ) (i : Nat) : t.slots[i]?.join = t.ports[i]? := by
  rw [slots_eq, List.getElem?_map]
  cases t.ports[i]? <;> rfl

theorem value?_eq (t : PortTable δ) (p : Nat) : t.value? p = t.ports[p]?.map Port.value := by
  rw [value?, getElem?_slots]

theorem values_eq (t : PortTable δ) :
    t.values = t.ports.zipIdx.map fun p => (p.2, p.1.value) := by
  rw [values, slots_eq, List.zipIdx_map, List.filterMap_map]
  exact congrFun (List.filterMap_eq_map (f := fun p : Port δ × Nat => (p.2, p.1.value))) _

theorem select?_eq (t : PortTable δ) (selector : Word) :
    t.select? selector = selector.index?.bind fun i => t.ports[i]?.map (i, ·) := by
  simp only [select?, getElem?_slots]

@[simp]
theorem ports_put (t : PortTable δ) (i : Nat) (port : Port δ) :
    (t.put i port).ports = t.ports.set i port := by
  refine ports_of_slots ?_
  change t.slots.set i (some port) = _
  rw [t.slots_eq, List.map_set]

@[simp]
theorem ports_map (f : δ → ε) (t : PortTable δ) : (t.map f).ports = t.ports.map (Port.map f) := by
  refine ports_of_slots ?_
  change t.slots.map (Option.map (Port.map f)) = _
  rw [t.slots_eq, List.map_map, List.map_map]
  rfl

@[simp]
theorem length_map (f : δ → ε) (t : PortTable δ) : (t.map f).length = t.length := by
  rw [length_eq, length_eq, ports_map, List.length_map]

theorem map_map {ζ : Type} (g : ε → ζ) (f : δ → ε) (t : PortTable δ) :
    (t.map f).map g = t.map (g ∘ f) := by
  refine ext_ports ?_ rfl
  rw [ports_map, ports_map, ports_map, List.map_map]
  rfl

/-- a new port stands behind the others, with their number for its own -/
theorem plug_eq (t : PortTable δ) (device : δ) : t.plug device = (t.length, t.push ⟨device, 0⟩) := by
  have last : t.nextId = t.slots.length := by rw [nextId_eq, length_slots, length_eq]
  rw [plug, if_pos last, nextId_eq]

@[simp]
theorem ports_attach (t : PortTable δ) (device : δ) :
    (t.attach device).ports = t.ports ++ [⟨device, 0⟩] := by
  rw [attach, plug_eq]
  refine ports_of_slots ?_
  change t.slots ++ [some _] = _
  rw [t.slots_eq, List.map_append, List.map_singleton]

@[simp]
theorem traffic_attach (t : PortTable δ) (device : δ) : (t.attach device).traffic = t.traffic := by
  rw [attach, plug_eq]
  rfl

theorem ports_foldl_attach (t : PortTable δ) (devices : List δ) :
    (devices.foldl attach t).ports = t.ports ++ devices.map (⟨·, 0⟩) := by
  induction devices generalizing t with
  | nil => exact (List.append_nil _).symm
  | cons d rest ih => simp [ih]

theorem traffic_foldl_attach (t : PortTable δ) (devices : List δ) :
    (devices.foldl attach t).traffic = t.traffic := by
  induction devices generalizing t with
  | nil => rfl
  | cons d rest ih => exact (ih (t.attach d)).trans (traffic_attach t d)

theorem length_attach (t : PortTable δ) (device : δ) :
    (t.attach device).length = t.length + 1 := by
  rw [length_eq, length_eq, ports_attach, List.length_append, List.length_singleton]

@[simp]
theorem ports_disconnectAll [Peripheral δ] (t : PortTable δ) :
    t.disconnectAll.ports = t.ports.map (Port.map Peripheral.disconnect) :=
  ports_map Peripheral.disconnect t

theorem length_disconnectAll [Peripheral δ] (t : PortTable δ) :
    t.disconnectAll.length = t.length := by
  rw [length_eq, length_eq, ports_disconnectAll, List.length_map]

end PortTable
end OneBus
