import Mathlib.Data.List.Count
import OneBus.Device
import OneBus.Proofs.Traffic

/-!
Every device is told once that the machine has stopped. While a machine runs its ports have only
seen writes and drives, and whatever stops it, an asserted halt, a fault, a call from outside or
the end of the machine, disconnects the devices that are there and lets nothing more through.
`Told` says so for one state, with the number of devices that are told, and every call keeps it.
-/

namespace OneBus

namespace PortTable

variable {δ : Type}

/-- so many ports, and none of them disconnected yet -/
structure Joined (count : Nat) (t : PortTable δ) : Prop where
  length : t.length = count
  calls : ∀ x ∈ t.traffic.toList, x.isCall

theorem Joined.attach {count : Nat} {t : PortTable δ} (h : Joined count t) (device : δ) :
    Joined (count + 1) (t.attach device) :=
  ⟨by rw [length_attach, h.length], by rw [traffic_attach]; exact h.calls⟩

variable [Peripheral δ]

section

variable {count : Nat} {t : PortTable δ}

theorem Joined.record (h : Joined count t) (port : Port δ) {x : Transfer} (call : x.isCall) :
    Joined count (t.record port x) := by
  refine ⟨by rw [length_record, h.length], fun y mem => ?_⟩
  rw [traffic_record] at mem
  rcases List.mem_append.1 mem with mem | mem
  · exact h.calls y mem
  · rwa [List.mem_singleton.1 mem]

theorem Joined.write (h : Joined count t) {n : PortTable δ} {selector value : Word}
    {notes : List Note} (done : t.write selector value = .ok (n, notes)) : Joined count n := by
  obtain ⟨i, port, -, -, rfl⟩ := exists_of_write done
  exact h.record port rfl

theorem Joined.drive (h : Joined count t) {n : PortTable δ} {selector value : Word}
    (done : t.drive selector = .ok (value, n)) : Joined count n := by
  obtain ⟨i, port, -, -, -, rfl⟩ := exists_of_drive done
  exact h.record port rfl

end

end PortTable

namespace Machine

open PortTable (Joined Accounted)

variable {δ : Type}

/-- a running machine has so many devices and has told none of them; a stopped one has told those
that it had when it stopped, each of them once and last of all -/
inductive Told (present : Nat) (m : Machine δ) : Prop
  | running (runs : m.isRunning) (joined : Joined present m.ports)
  | stopped (stopped : ¬ m.isRunning) (calls : List Transfer) (only : ∀ x ∈ calls, x.isCall)
      (traffic : m.ports.traffic.toList = calls ++ (List.range present).map .disconnected)

theorem told_new (memorySize : Nat) : Told 0 (new memorySize : Machine δ) :=
  .running rfl ⟨rfl, fun _ mem => by simp [new] at mem⟩

theorem Told.aside {present : Nat} {m n : Machine δ} (h : Told present m)
    (condition : n.condition = m.condition) (ports : n.ports = m.ports) : Told present n := by
  have same : n.isRunning = m.isRunning := by rw [isRunning, isRunning, condition]
  cases h with
  | running runs joined => exact .running (same ▸ runs) (ports ▸ joined)
  | stopped stopped calls only traffic =>
    exact .stopped (same ▸ stopped) calls only (ports ▸ traffic)

theorem Told.length {present : Nat} {m : Machine δ} (h : Told present m) (runs : m.isRunning) :
    m.ports.length = present := by
  cases h with
  | running _ joined => exact joined.length
  | stopped stopped => exact absurd runs stopped

theorem Told.attach {present : Nat} {m : Machine δ} (h : Told present m) (device : δ) :
    Told (if m.isRunning then present + 1 else present) (m.attach device) := by
  cases h with
  | running runs joined =>
    rw [if_pos runs]
    exact .running runs (joined.attach device)
  | stopped stopped calls only traffic =>
    rw [if_neg stopped]
    have same : (m.attach device).ports.traffic = m.ports.traffic :=
      PortTable.traffic_attach m.ports device
    exact .stopped stopped calls only (same ▸ traffic)

variable [Peripheral δ] {present : Nat} {m : Machine δ}

theorem told_stop (joined : Joined present m.ports) {condition : Condition}
    (stops : condition ≠ .running) : Told present (m.stop condition) := by
  refine .stopped (by simpa [isRunning, stop] using stops) m.ports.traffic.toList joined.calls ?_
  rw [← joined.length]
  exact PortTable.traffic_disconnectAll m.ports

theorem Told.tick (h : Told present m) : Told present m.tick.1 := by
  cases h with
  | stopped stopped calls only traffic =>
    rw [tick_stopped stopped]
    exact .stopped stopped calls only traffic
  | running runs joined =>
    let Q (n : Machine δ) : Prop := n.isRunning ∧ Joined present n.ports
    refine tick_ends (Q := Q) runs ⟨runs, joined⟩ ?_ ?_ ?_ ?_
    · exact fun n s _ h => Ends.drive s (fun _ => h) fun _ _ _ done => ⟨h.1, h.2.drive done⟩
    · exact fun n a s _ h => Ends.latch a s h (fun _ _ => h)
        (fun _ _ _ done => ⟨h.1, h.2.write done⟩) (fun _ _ => h) fun _ _ _ => h
    · intro n h
      have settled : Told present (n.finish m.word) := by
        unfold finish
        cases m.word.contains .halt with
        | true => exact told_stop (by split <;> exact h.2) (by decide)
        | false =>
          cases m.word.contains .programCounterIncrement <;> exact .running h.1 h.2
      exact settled.aside rfl rfl
    · exact fun n e h => told_stop (m := n.settle.note (.faulted n.settle.ticks e)) h.2 (by decide)

theorem Told.halt (h : Told present m) : Told present m.halt := by
  rw [Machine.halt]
  split
  · next runs =>
    cases h with
    | running _ joined => exact told_stop joined (by decide)
    | stopped stopped => exact absurd runs stopped
  · exact h

theorem Told.act (h : Told present m) (call : Action δ) :
    ∃ later, present ≤ later ∧ Told later (m.act call) := by
  cases call with
  | attach device =>
    refine ⟨_, ?_, h.attach device⟩
    split <;> omega
  | tick | step | run _ | runOn _ _ =>
    exact ⟨present, le_rfl, act_keeps (fun _ h => h.tick) h rfl⟩
  | halt => exact ⟨present, le_rfl, h.halt⟩
  | enqueue program => exact ⟨present, le_rfl, h.aside rfl rfl⟩
  | setRegister r value => exact ⟨present, le_rfl, h.aside rfl rfl⟩
  | load image =>
    rw [Machine.act, Machine.load]
    split <;> exact ⟨present, le_rfl, h.aside rfl rfl⟩
  | poke address value =>
    rw [Machine.act, Machine.poke]
    cases m.memory.write address value <;> exact ⟨present, le_rfl, h.aside rfl rfl⟩

theorem Told.foldl_act (h : Told present m) (calls : List (Action δ)) :
    ∃ later, present ≤ later ∧ Told later (calls.foldl Machine.act m) := by
  induction calls generalizing present m with
  | nil => exact ⟨present, le_rfl, h⟩
  | cons call rest ih =>
    obtain ⟨next, more, told⟩ := h.act call
    obtain ⟨later, further, told⟩ := ih told
    exact ⟨later, more.trans further, told⟩

/-- a machine that is given up has told every device that it could -/
theorem Told.exists_traffic_halt (h : Told present m) :
    ∃ calls, (∀ x ∈ calls, x.isCall) ∧
      m.halt.ports.traffic.toList = calls ++ (List.range present).map .disconnected := by
  have stops : ¬ m.halt.isRunning := by
    rw [Machine.halt]
    split
    · exact Bool.false_ne_true
    · assumption
  cases h.halt with
  | running runs => exact absurd runs stops
  | stopped _ calls only traffic => exact ⟨calls, only, traffic⟩

end Machine

namespace Transfer

variable {calls : List Transfer} (only : ∀ x ∈ calls, x.isCall) (count : Nat)

include only

theorem count_disconnected (p : Nat) :
    (calls ++ (List.range count).map disconnected).count (.disconnected p) =
      if p < count then 1 else 0 := by
  have none : calls.count (.disconnected p) = 0 :=
    List.count_eq_zero.2 fun mem => Bool.false_ne_true (only _ mem)
  have injective : Function.Injective disconnected := fun _ _ same => disconnected.inj same
  rw [List.count_append, none, Nat.zero_add, List.count_map_of_injective _ _ injective,
    List.nodup_range.count]
  simp only [List.mem_range]

theorem pairwise_disconnected :
    (calls ++ (List.range count).map disconnected).Pairwise
      fun earlier later => earlier ≠ .disconnected later.port := by
  have apart {x y : Transfer} (mem : x ∈ calls) : x ≠ .disconnected y.port := by
    rintro rfl
    exact Bool.false_ne_true (only _ mem)
  refine List.pairwise_append.2 ⟨?_, ?_, ?_⟩
  · exact List.pairwise_of_forall_mem_list fun _ mem _ _ => apart mem
  · refine List.pairwise_map.2 (List.nodup_range.imp fun differ same => differ ?_)
    exact disconnected.inj same
  · exact fun _ mem _ _ => apart mem

end Transfer

namespace Machine

variable {δ : Type} [Peripheral δ]

open PortTable (Accounted)

/-- whatever is called on a machine until it is given up: a device attached while it ran is told
once that it has stopped, no device is told twice, and what a device is told comes last -/
theorem parting_once (memorySize : Nat) (calls : List (Action δ)) :
    let last := (calls.foldl act (new memorySize : Machine δ)).halt
    let traffic := last.ports.traffic.toList
    Accounted (attached calls) last.ports ∧
      (∀ before device after, calls = before ++ .attach device :: after →
        (before.foldl act (new memorySize : Machine δ)).isRunning →
        traffic.count (.disconnected (attached before).length) = 1) ∧
      (∀ p, traffic.count (.disconnected p) ≤ 1) ∧
      traffic.Pairwise fun earlier later => earlier ≠ .disconnected later.port := by
  intro last traffic
  have fresh : Accounted [] (new memorySize : Machine δ).ports := PortTable.accounted_nil
  have start : Told 0 (new memorySize : Machine δ) := told_new memorySize
  obtain ⟨present, -, told⟩ := start.foldl_act calls
  obtain ⟨sent, only, eq⟩ := told.exists_traffic_halt
  have traffic_eq : traffic = sent ++ (List.range present).map .disconnected := eq
  refine ⟨?_, ?_, ?_, ?_⟩
  · have ended : Accounted (attached calls) ((calls.foldl act (new memorySize)).act .halt).ports :=
      accounted_plain (accounted_foldl_act fresh calls) rfl
    exact ended
  · rintro before device after rfl runs
    have ports : Accounted (attached before) (before.foldl act (new memorySize)).ports :=
      accounted_foldl_act fresh before
    -- the device comes to a port behind those that the calls before have attached
    obtain ⟨count, -, earlier⟩ := start.foldl_act before
    obtain rfl : count = (attached before).length := (earlier.length runs).symm.trans ports.length
    have joins := earlier.attach device
    rw [if_pos runs] at joins
    obtain ⟨later, more, told⟩ := joins.foldl_act after
    obtain ⟨sent, only, eq⟩ := told.exists_traffic_halt
    have traffic_eq : traffic = sent ++ (List.range later).map .disconnected := by
      rw [← eq]
      exact congrArg (fun m : Machine δ => m.halt.ports.traffic.toList) (List.foldl_append ..)
    rw [traffic_eq, Transfer.count_disconnected only, if_pos (by omega)]
  · intro p
    rw [traffic_eq, Transfer.count_disconnected only]
    split <;> omega
  · rw [traffic_eq]
    exact Transfer.pairwise_disconnected only present

/-- a device that saw the machine run, one that came in the middle, and one that came too late -/
theorem parting_once_halted :
    let early : List (Action Device) :=
      [.attach (.probe 3 {}), .load ⟨0, [.of .output, .of .halt]⟩, .tick]
    let calls := early ++ .attach .mute :: [.run none, .attach (.echo {}),
      .enqueue Opcode.output.microprogram, .step, .halt]
    let traffic := (calls.foldl act (new 16 : Machine Device)).halt.ports.traffic.toList
    (early.foldl act (new 16 : Machine Device)).isRunning ∧
      traffic.count (.disconnected (attached early).length) = 1 ∧
      traffic.count (.disconnected 2) ≤ 1 ∧
      traffic = [.written 0 0, .disconnected 0, .disconnected 1] ∧
      (calls.foldl act (new 16 : Machine Device)).halt.ports.devices =
        [.probe 3 ⟨#[0], 0, 1⟩, .mute, .echo {}] := by
  intro early calls traffic
  obtain ⟨-, once, most, -⟩ := parting_once (δ := Device) 16 calls
  have runs : (early.foldl act (new 16 : Machine Device)).isRunning := by decide +kernel
  exact ⟨runs, once early .mute _ rfl runs, most 2, by decide +kernel, by decide +kernel⟩

end Machine
end OneBus
