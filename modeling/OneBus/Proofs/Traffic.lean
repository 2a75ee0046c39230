import Mathlib.Data.List.Infix
import OneBus.Proofs.Actions

/-!
The traffic of the ports is what their devices got. Each port is what its own transfers, one after
the other, make of the device that was attached to it; what a device is recorded to have answered
is what it answered in the state that the transfers before had left it in; and no transfer goes to
a port that is not there. Writes, drives, disconnects and further devices keep it so, hence do the
ticks of a machine and all calls to it: `Accounted`.
-/

namespace OneBus

theorem prefix_of_prefix_append {α : Type} {front l tail : List α} {x : α}
    (h : front ++ [x] <+: l ++ tail) (apart : x ∉ tail) : front ++ [x] <+: l := by
  rcases List.prefix_or_prefix_of_prefix h (List.prefix_append l tail) with within | longer
  · exact within
  · rcases List.prefix_concat_iff.1 longer with rfl | ⟨more, rfl⟩
    · exact List.prefix_rfl
    · rw [List.append_assoc] at h
      have rest : more ++ [x] <+: tail := (List.prefix_append_right_inj l).1 h
      exact absurd (rest.subset (by simp)) apart

namespace Transfer

def port : Transfer → Nat
  | written p _ | driven p _ | disconnected p => p

/-- a write or a drive -/
def isCall : Transfer → Bool
  | disconnected _ => false
  | _ => true

variable {δ : Type} [Peripheral δ]

/-- what a transfer makes of a port that it reaches -/
def reach (port : Port δ) : Transfer → Port δ
  | written _ value => ⟨(Peripheral.write port.device value).1, value⟩
  | driven _ _ => { port with device := (Peripheral.drive port.device).2 }
  | disconnected _ => { port with device := Peripheral.disconnect port.device }

/-- what a transfer makes of the port with the number `p` -/
def deliver (p : Nat) (port : Port δ) (t : Transfer) : Port δ :=
  if t.port = p then t.reach port else port

/-- the port with the number `p` behind some transfers, with a device that had none before -/
def delivered (p : Nat) (device : δ) (traffic : List Transfer) : Port δ :=
  traffic.foldl (deliver p) ⟨device, 0⟩

theorem delivered_concat (p : Nat) (device : δ) (traffic : List Transfer) (t : Transfer) :
    delivered p device (traffic ++ [t]) = t.deliver p (delivered p device traffic) :=
  List.foldl_concat ..

theorem delivered_of_ne {p : Nat} {traffic : List Transfer} (others : ∀ t ∈ traffic, t.port ≠ p)
    (device : δ) : delivered p device traffic = ⟨device, 0⟩ := by
  unfold delivered
  induction traffic with
  | nil => rfl
  | cons t rest ih =>
    obtain ⟨other, others⟩ := List.forall_mem_cons.1 others
    rw [List.foldl_cons, deliver, if_neg other]
    exact ih others

theorem foldl_deliver_disconnects (p count : Nat) (port : Port δ) :
    ((List.range count).map disconnected).foldl (deliver p) port =
      if p < count then (disconnected p).reach port else port := by
  induction count with
  | zero => rfl
  | succ count ih =>
    rw [List.range_succ, List.map_append, List.map_singleton, List.foldl_concat, ih, deliver]
    by_cases last : count = p
    · subst last
      simp [Transfer.port, reach]
    · have other : (disconnected count).port ≠ p := last
      have same : p < count + 1 ↔ p < count := by omega
      rw [if_neg other]
      simp only [same]

/-- what a transfer leaves on the port with the number `p` -/
def written? (p : Nat) : Transfer → Option Word
  | written q value => if q = p then some value else none
  | _ => none

theorem value_deliver (p : Nat) (port : Port δ) (t : Transfer) :
    (t.deliver p port).value = (t.written? p).getD port.value := by
  rw [deliver]
  cases t with
  | written q value =>
    change (if q = p then _ else port).value = (if q = p then some value else none).getD port.value
    split <;> rfl
  | driven q value => split <;> rfl
  | disconnected q => split <;> rfl

theorem value_delivered (p : Nat) (device : δ) (traffic : List Transfer) :
    (delivered p device traffic).value = (traffic.filterMap (written? p)).getLast?.getD 0 := by
  induction traffic using List.reverseRecOn with
  | nil => rfl
  | append_singleton rest t ih =>
    rw [delivered_concat, value_deliver, ih, List.filterMap_append]
    cases last : t.written? p <;> simp [last]

end Transfer

namespace PortTable

open Transfer

variable {δ : Type}

theorem select?_eq_some_iff {t : PortTable δ} {selector : Word} {i : Nat} {port : Port δ} :
    t.select? selector = some (i, port) ↔
      Word.index? selector = some i ∧ t.ports[i]? = some port := by
  simp only [select?_eq, Option.bind_eq_some_iff, Option.map_eq_some_iff, Prod.mk.injEq]
  constructor
  · rintro ⟨_, selects, _, there, rfl, rfl⟩
    exact ⟨selects, there⟩
  · rintro ⟨selects, there⟩
    exact ⟨i, selects, port, there, rfl, rfl⟩

variable [Peripheral δ]

/-- the table is what its traffic has made of the devices attached to it -/
structure Accounted (devices : List δ) (t : PortTable δ) : Prop where
  port (p : Nat) : t.ports[p]? = devices[p]?.map fun d => delivered p d t.traffic.toList
  known : ∀ x ∈ t.traffic.toList, x.port < t.length
  answers (front : List Transfer) (p : Nat) (value : Word) (device : δ)
    (earlier : front ++ [.driven p value] <+: t.traffic.toList)
    (there : devices[p]? = some device) :
    value = (Peripheral.drive (delivered p device front).device).1

/-- a transfer to one port, as it is recorded -/
def record (t : PortTable δ) (port : Port δ) (x : Transfer) : PortTable δ :=
  (t.put x.port (x.reach port)).tell x

theorem ports_record (t : PortTable δ) (port : Port δ) (x : Transfer) :
    (t.record port x).ports = t.ports.set x.port (x.reach port) :=
  ports_put ..

theorem length_record (t : PortTable δ) (port : Port δ) (x : Transfer) :
    (t.record port x).length = t.length := by
  rw [length_eq, length_eq, ports_record, List.length_set]

theorem traffic_record (t : PortTable δ) (port : Port δ) (x : Transfer) :
    (t.record port x).traffic.toList = t.traffic.toList ++ [x] :=
  Array.toList_push

theorem getElem?_record {t : PortTable δ} {port : Port δ} {x : Transfer}
    (there : t.ports[x.port]? = some port) (p : Nat) :
    (t.record port x).ports[p]? = t.ports[p]?.map (x.deliver p) := by
  rw [ports_record]
  by_cases here : x.port = p
  · subst here
    obtain ⟨bound, -⟩ := List.getElem?_eq_some_iff.1 there
    rw [List.getElem?_set_self bound, there]
    simp [Transfer.deliver]
  · rw [List.getElem?_set_ne here]
    cases t.ports[p]? <;> simp [Transfer.deliver, here]

theorem traffic_disconnectAll (t : PortTable δ) :
    t.disconnectAll.traffic.toList =
      t.traffic.toList ++ (List.range t.length).map .disconnected :=
  Array.toList_appendList

theorem exists_of_write {t n : PortTable δ} {selector value : Word} {notes : List Note}
    (h : t.write selector value = .ok (n, notes)) :
    ∃ i port, Word.index? selector = some i ∧ t.ports[i]? = some port ∧
      n = t.record port (.written i value) := by
  unfold write at h
  split at h
  · next i port select =>
    cases h
    obtain ⟨selects, there⟩ := select?_eq_some_iff.1 select
    exact ⟨i, port, selects, there, rfl⟩
  · cases h

theorem exists_of_drive {t n : PortTable δ} {selector value : Word}
    (h : t.drive selector = .ok (value, n)) :
    ∃ i port, Word.index? selector = some i ∧ t.ports[i]? = some port ∧
      value = (Peripheral.drive port.device).1 ∧ n = t.record port (.driven i value) := by
  unfold drive at h
  split at h
  · next i port select =>
    cases h
    obtain ⟨selects, there⟩ := select?_eq_some_iff.1 select
    exact ⟨i, port, selects, there, rfl, rfl⟩
  · cases h

section

variable {t : PortTable δ} {selector : Word}

theorem write_of_select {i : Nat} {port : Port δ} (select : t.select? selector = some (i, port))
    (value : Word) :
    ∃ notes, t.write selector value = .ok (t.record port (.written i value), notes) := by
  rw [write, select]
  exact ⟨_, rfl⟩

theorem write_error (none : t.select? selector = none) (value : Word) :
    t.write selector value = .error ⟨selector⟩ := by
  rw [write, none]

theorem drive_of_select {i : Nat} {port : Port δ} (select : t.select? selector = some (i, port)) :
    ∃ value, t.drive selector = .ok (value, t.record port (.driven i value)) := by
  rw [drive, select]
  exact ⟨_, rfl⟩

theorem drive_error (none : t.select? selector = none) : t.drive selector = .error ⟨selector⟩ := by
  rw [drive, none]

end

section

variable {devices : List δ} {t : PortTable δ}

theorem Accounted.length (h : Accounted devices t) : t.length = devices.length := by
  have ports : t.ports = devices.mapIdx fun p d => delivered p d t.traffic.toList :=
    List.ext_getElem? fun p => by rw [h.port, List.getElem?_mapIdx]
  rw [length_eq, ports, List.length_mapIdx]

/-- the table is determined by its traffic -/
theorem Accounted.eq_of_traffic {u : PortTable δ} (h : Accounted devices t)
    (h' : Accounted devices u) (same : t.traffic.toList = u.traffic.toList) : t = u := by
  have ports : t.ports = u.ports := List.ext_getElem? fun p => by rw [h.port, h'.port, same]
  exact ext_ports ports (Array.toList_inj.1 same)

theorem accounted_nil : Accounted ([] : List δ) {} where
  port _ := rfl
  known _ mem := by simp at mem
  answers _ _ _ _ _ there := by simp at there

theorem Accounted.attach (h : Accounted devices t) (device : δ) :
    Accounted (devices ++ [device]) (t.attach device) where
  port p := by
    have fresh : delivered t.length device t.traffic.toList = ⟨device, 0⟩ :=
      delivered_of_ne (fun x mem => (h.known x mem).ne) device
    rw [ports_attach, traffic_attach]
    rcases Nat.lt_trichotomy p t.length with old | last | beyond
    · rw [List.getElem?_append_left (t.length_eq ▸ old), List.getElem?_append_left (h.length ▸ old),
        h.port]
    · have ports : p = t.ports.length := last.trans t.length_eq
      have count : p = devices.length := last.trans h.length
      rw [ports, List.getElem?_concat_length, ← ports, count, List.getElem?_concat_length, ← count,
        Option.map_some, last, fresh]
    · have ports : t.ports.length + 1 ≤ p := by rw [← t.length_eq]; exact beyond
      have count : devices.length + 1 ≤ p := h.length ▸ beyond
      rw [List.getElem?_eq_none (by simpa using ports),
        List.getElem?_eq_none (by simpa using count)]
      rfl
  known x mem := by
    rw [traffic_attach] at mem
    rw [length_attach]
    exact Nat.lt_succ_of_lt (h.known x mem)
  answers front p value d earlier there := by
    rw [traffic_attach] at earlier
    have old : p < devices.length :=
      h.length ▸ h.known (.driven p value) (earlier.subset (by simp))
    rw [List.getElem?_append_left old] at there
    exact h.answers front p value d earlier there

theorem Accounted.record (h : Accounted devices t) {x : Transfer} {port : Port δ}
    (there : t.ports[x.port]? = some port)
    (answered : ∀ p value, x = .driven p value → value = (Peripheral.drive port.device).1) :
    Accounted devices (t.record port x) where
  port p := by
    rw [traffic_record, getElem?_record there, h.port, Option.map_map]
    simp only [Function.comp_def, delivered_concat]
  known y mem := by
    rw [traffic_record] at mem
    rw [length_record]
    rcases List.mem_append.1 mem with mem | mem
    · exact h.known y mem
    · obtain rfl := List.mem_singleton.1 mem
      rw [length_eq]
      exact (List.getElem?_eq_some_iff.1 there).1
  answers front p value d earlier attached := by
    rw [traffic_record] at earlier
    rcases List.prefix_concat_iff.1 earlier with now | earlier
    · obtain ⟨rfl, last⟩ := List.append_inj' now rfl
      obtain rfl : x = .driven p value := by simpa using last.symm
      have reached : t.ports[p]? = some port := there
      rw [h.port, attached] at reached
      cases reached
      exact answered p value rfl
    · exact h.answers front p value d earlier attached

theorem Accounted.write (h : Accounted devices t) {n : PortTable δ} {selector value : Word}
    {notes : List Note} (done : t.write selector value = .ok (n, notes)) : Accounted devices n := by
  obtain ⟨i, port, -, there, rfl⟩ := exists_of_write done
  exact h.record there fun p value same => nomatch same

theorem Accounted.drive (h : Accounted devices t) {n : PortTable δ} {selector value : Word}
    (done : t.drive selector = .ok (value, n)) : Accounted devices n := by
  obtain ⟨i, port, -, there, answer, rfl⟩ := exists_of_drive done
  refine h.record there fun p v same => ?_
  cases same
  exact answer

theorem Accounted.disconnectAll (h : Accounted devices t) : Accounted devices t.disconnectAll where
  port p := by
    rw [traffic_disconnectAll, ports_disconnectAll, List.getElem?_map, h.port]
    cases attached : devices[p]? with
    | none => rfl
    | some d =>
      have bound : p < t.length := h.length ▸ (List.getElem?_eq_some_iff.1 attached).1
      simp only [delivered, List.foldl_append, foldl_deliver_disconnects, Option.map_some,
        if_pos bound]
      rfl
  known x mem := by
    rw [traffic_disconnectAll, List.mem_append, List.mem_map] at mem
    rw [length_disconnectAll]
    rcases mem with mem | ⟨i, bound, rfl⟩
    · exact h.known x mem
    · exact List.mem_range.1 bound
  answers front p value d earlier attached := by
    rw [traffic_disconnectAll] at earlier
    exact h.answers front p value d (prefix_of_prefix_append earlier (by simp)) attached

end

end PortTable

namespace Machine

open PortTable (Accounted)

variable {δ : Type} [Peripheral δ] {m : Machine δ} {devices : List δ}

/-- what writes, drives and disconnects keep of the ports, a tick keeps -/
theorem ports_tick {R : PortTable δ → Prop}
    (write : ∀ t selector value n notes, R t → t.write selector value = .ok (n, notes) → R n)
    (drive : ∀ t selector value n, R t → t.drive selector = .ok (value, n) → R n)
    (disconnect : ∀ t, R t → R t.disconnectAll) (h : R m.ports) : R m.tick.1.ports := by
  refine tick_rule (P := fun n => R n.ports) (Q := fun n => R n.ports) ?_ ?_ ?_ ?_ ?_ h
  · exact fun n e h => h
  · exact fun n s h => Ends.drive s (fun _ => h) fun bus ports _ done => drive _ _ bus ports h done
  · exact fun n a s h => Ends.latch a s h (fun _ _ => h)
      (fun ports notes _ done => write _ _ _ ports notes h done) (fun _ _ => h) fun _ _ _ => h
  · intro n w h
    unfold finish
    cases w.contains .programCounterIncrement <;> cases w.contains .halt <;>
      first | exact h | exact disconnect _ h
  · exact fun n e h => disconnect _ h

theorem accounted_tick (h : Accounted devices m.ports) : Accounted devices m.tick.1.ports :=
  ports_tick (fun _ _ _ _ _ h done => h.write done) (fun _ _ _ _ h done => h.drive done)
    (fun _ h => h.disconnectAll) h

theorem accounted_after (h : Accounted devices m.ports) (n : Nat) :
    Accounted devices (m.after n).ports :=
  after_keeps (P := fun k => Accounted devices k.ports) (fun _ h => accounted_tick h) h n

theorem accounted_plain (h : Accounted devices m.ports) {call : Action δ}
    (plain : call.device? = none) : Accounted devices (m.act call).ports := by
  cases call with
  | attach device => cases plain
  | tick | step | run _ | runOn _ _ =>
    exact act_keeps (P := fun n => Accounted devices n.ports) (fun _ h => accounted_tick h) h rfl
  | halt =>
    rw [act, halt]
    split
    · exact h.disconnectAll
    · exact h
  | enqueue program => exact h
  | setRegister r value => exact h
  | load image =>
    rw [act, load]
    split <;> exact h
  | poke address value =>
    rw [act, poke]
    cases m.memory.write address value <;> exact h

theorem accounted_act (h : Accounted devices m.ports) (call : Action δ) :
    Accounted (devices ++ call.device?.toList) (m.act call).ports := by
  cases attaches : call.device? with
  | none => simpa using accounted_plain h attaches
  | some device =>
    obtain rfl : call = .attach device := by
      cases call <;> cases attaches
      rfl
    exact h.attach device

theorem accounted_foldl_act (h : Accounted devices m.ports) (calls : List (Action δ)) :
    Accounted (devices ++ attached calls) (calls.foldl act m).ports := by
  induction calls generalizing m devices with
  | nil => simpa [attached] using h
  | cons call rest ih =>
    have next := ih (accounted_act h call)
    cases device : call.device? <;> simpa [attached, device] using next

theorem accounted_boot (image : Image) (memorySize : Nat) (devices : List δ) :
    Accounted devices (boot image memorySize devices).ports := by
  have start : Accounted [] (ofImage image memorySize : Machine δ).ports := by
    rw [ofImage, load]
    split <;> exact PortTable.accounted_nil
  have attaching (before : List δ) (m : Machine δ) (h : Accounted before m.ports) :
      Accounted (before ++ devices) (devices.foldl attach m).ports := by
    induction devices generalizing before m with
    | nil => simpa using h
    | cons d rest ih => simpa using ih (before ++ [d]) (m.attach d) (h.attach d)
  exact attaching [] _ start

omit [Peripheral δ] in
theorem traffic_boot (image : Image) (memorySize : Nat) (devices : List δ) :
    (boot image memorySize devices).ports.traffic.toList = [] := by
  have attaching (m : Machine δ) : (devices.foldl attach m).ports.traffic = m.ports.traffic := by
    induction devices generalizing m with
    | nil => rfl
    | cons d rest ih => exact (ih (m.attach d)).trans (PortTable.traffic_attach m.ports d)
  rw [boot, attaching, ofImage, load]
  split <;> rfl

end Machine
end OneBus
