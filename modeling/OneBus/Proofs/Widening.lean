import OneBus.Device
import OneBus.Proofs.Advance
import OneBus.Proofs.Loading
import OneBus.Proofs.Traffic

/-!
More memory and more devices do nothing to a run without faults. An address behind the end of the
smaller memory and a port behind the last device of the smaller table end the smaller run, so as
long as it goes on the larger one keeps to the cells and the ports that the two have in common:
`Wider`, which the parts of a word keep in one direction only, from a success to a success.
-/

namespace OneBus

/-- what succeeds on the left succeeds on the right, with a related result -/
def Matched {ε ε' α β : Type} (R : α → β → Prop) (x : Except ε α) (y : Except ε' β) : Prop :=
  ∀ a, x = .ok a → ∃ b, y = .ok b ∧ R a b

namespace Matched

variable {ε ε' α β γ α' β' : Type} {R : α → β → Prop} {Q : α' → β' → Prop}

theorem ok {a : α} {b : β} (h : R a b) : Matched R (.ok a : Except ε α) (.ok b : Except ε' β) := by
  intro _ same
  cases same
  exact ⟨b, rfl, h⟩

theorem error (e : ε) (y : Except ε' β) : Matched R (.error e) y :=
  fun _ same => nomatch same

theorem bind {x : Except ε α} {y : Except ε' β} {f : α → Except ε α'} {g : β → Except ε' β'}
    (h : Matched R x y) (next : ∀ a b, R a b → Matched Q (f a) (g b)) :
    Matched Q (x >>= f) (y >>= g) := by
  cases x with
  | error e => exact error e _
  | ok a =>
    obtain ⟨b, rfl, related⟩ := h a rfl
    exact next a b related

theorem foldlM {f : α → γ → Except ε α} {g : β → γ → Except ε' β} (l : List γ)
    (step : ∀ c a b, R a b → Matched R (f a c) (g b c)) {a : α} {b : β} (h : R a b) :
    Matched R (l.foldlM f a) (l.foldlM g b) := by
  induction l generalizing a b with
  | nil => exact ok h
  | cons c l ih =>
    rw [List.foldlM_cons, List.foldlM_cons]
    exact (step c a b h).bind fun _ _ h => ih h

end Matched

namespace Memory

/-- the cells of `m`, and `more` behind them -/
def Wider (more : List Word) (m n : Memory) : Prop := n.cells.toList = m.cells.toList ++ more

variable {more : List Word} {m n : Memory}

theorem Wider.getElem? (h : Wider more m n) {i : Nat} (inside : i < m.length) :
    n.cells[i]? = m.cells[i]? := by
  rw [← Array.getElem?_toList, h, List.getElem?_append_left inside, Array.getElem?_toList]

theorem Wider.length (h : Wider more m n) : n.length = m.length + more.length := by
  have lengths := congrArg List.length h
  rwa [List.length_append] at lengths

theorem Wider.read (h : Wider more m n) (a : Word) : Matched Eq (m.read a) (n.read a) := by
  unfold Memory.read
  split
  · next w found =>
    obtain ⟨i, selects, cell⟩ := Option.bind_eq_some_iff.1 found
    have inside : i < m.length := (Array.getElem?_eq_some_iff.1 cell).1
    rw [selects, Option.bind_some, h.getElem? inside, cell]
    exact .ok rfl
  · exact .error _ _

theorem Wider.write (h : Wider more m n) (a v : Word) :
    Matched (Wider more) (m.write a v) (n.write a v) := by
  unfold Memory.write
  split
  · next i cell =>
    obtain ⟨selects, inside⟩ := cell?_eq_some_iff.1 cell
    have there : n.cell? a = some i := cell?_eq_some_iff.2 ⟨selects, by rw [h.length]; omega⟩
    rw [there]
    refine .ok ?_
    rw [Wider, Array.toList_setIfInBounds, Array.toList_setIfInBounds, h,
      List.set_append_left i v inside]
  · exact .error _ _

/-- an image that the larger memory holds more of -/
theorem wider_load {small large : Memory} (size : small.length ≤ large.length) (bs : List UInt8) :
    Wider ((large.load bs).cells.toList.drop small.length) (small.load bs) (large.load bs) := by
  have front : (large.load bs).cells.toList.take small.length = (small.load bs).cells.toList := by
    rw [cells_load, cells_load]
    refine List.ext_getElem? fun i => ?_
    rw [List.getElem?_take, Word.getElem?_row, Word.getElem?_row]
    split
    · rw [if_pos (by omega)]
    · rfl
  rw [Wider, ← front, List.take_append_drop]

end Memory

namespace PortTable

variable {δ : Type}

/-- the ports of `t` and others behind them, which get no calls -/
structure Wider (t u : PortTable δ) : Prop where
  ports : t.ports <+: u.ports
  traffic : u.traffic.toList.filter (·.port < t.length) = t.traffic.toList
  quiet : ∀ x ∈ u.traffic.toList, x.isCall → x.port < t.length

variable {t u : PortTable δ}

theorem Wider.select? (h : Wider t u) {selector : Word} {i : Nat} {port : Port δ}
    (select : t.select? selector = some (i, port)) : u.select? selector = some (i, port) := by
  obtain ⟨selects, there⟩ := select?_eq_some_iff.1 select
  obtain ⟨rest, ports⟩ := h.ports
  have inside : i < t.ports.length := (List.getElem?_eq_some_iff.1 there).1
  exact select?_eq_some_iff.2 ⟨selects, by rw [← ports, List.getElem?_append_left inside, there]⟩

variable [Peripheral δ]

theorem Wider.record (h : Wider t u) (port : Port δ) {x : Transfer} (inside : x.port < t.length) :
    Wider (t.record port x) (u.record port x) where
  ports := by
    obtain ⟨rest, ports⟩ := h.ports
    refine ⟨rest, ?_⟩
    rw [length_eq] at inside
    rw [ports_record, ports_record, ← ports, List.set_append_left _ _ inside]
  traffic := by
    rw [length_record, traffic_record, traffic_record, List.filter_append, h.traffic]
    simp [inside]
  quiet y mem call := by
    rw [traffic_record] at mem
    rw [length_record]
    rcases List.mem_append.1 mem with mem | mem
    · exact h.quiet y mem call
    · rwa [List.mem_singleton.1 mem]

theorem Wider.write (h : Wider t u) (selector value : Word) :
    Matched (fun a b => Wider a.1 b.1 ∧ a.2 = b.2)
      (t.write selector value) (u.write selector value) := by
  cases select : t.select? selector with
  | none =>
    rw [write_error select]
    exact .error _ _
  | some found =>
    obtain ⟨i, port⟩ := found
    have inside : i < t.length := lt_length (select?_eq_some_iff.1 select).2
    rw [PortTable.write, PortTable.write, select, h.select? select]
    exact .ok ⟨h.record port (x := .written i value) inside, rfl⟩

theorem Wider.drive (h : Wider t u) (selector : Word) :
    Matched (fun a b => a.1 = b.1 ∧ Wider a.2 b.2) (t.drive selector) (u.drive selector) := by
  cases select : t.select? selector with
  | none =>
    rw [drive_error select]
    exact .error _ _
  | some found =>
    obtain ⟨i, port⟩ := found
    have inside : i < t.length := lt_length (select?_eq_some_iff.1 select).2
    rw [PortTable.drive, PortTable.drive, select, h.select? select]
    exact .ok ⟨rfl, h.record port (x := .driven i _) inside⟩

theorem Wider.disconnectAll (h : Wider t u) : Wider t.disconnectAll u.disconnectAll where
  ports := by
    rw [ports_disconnectAll, ports_disconnectAll]
    exact h.ports.map _
  traffic := by
    obtain ⟨more, longer⟩ := Nat.exists_eq_add_of_le h.ports.length_le
    rw [← length_eq, ← length_eq] at longer
    rw [length_disconnectAll, traffic_disconnectAll, traffic_disconnectAll, List.filter_append,
      h.traffic, longer, List.range_add, List.map_append, List.filter_append]
    have own : ((List.range t.length).map Transfer.disconnected).filter (·.port < t.length) =
        (List.range t.length).map .disconnected := by
      refine List.filter_eq_self.2 fun x mem => ?_
      obtain ⟨p, bound, rfl⟩ := List.mem_map.1 mem
      exact decide_eq_true (List.mem_range.1 bound)
    have others : (((List.range more).map (t.length + ·)).map Transfer.disconnected).filter
        (·.port < t.length) = [] := by
      rw [List.map_map]
      refine List.filter_eq_nil_iff.2 fun x mem => ?_
      obtain ⟨p, -, rfl⟩ := List.mem_map.1 mem
      have behind : ¬ t.length + p < t.length := by omega
      exact fun inside => behind (of_decide_eq_true inside)
    rw [own, others, List.append_nil]
  quiet x mem call := by
    rw [traffic_disconnectAll] at mem
    rw [length_disconnectAll]
    rcases List.mem_append.1 mem with mem | mem
    · exact h.quiet x mem call
    · obtain ⟨p, -, rfl⟩ := List.mem_map.1 mem
      exact nomatch call

end PortTable

namespace Machine

open PortTable (Accounted)

variable {δ : Type}

/-- `n` is `m` with `more` behind its cells and with further ports -/
structure Wider (more : List Word) (m n : Machine δ) : Prop where
  rest : ∃ memory ports journal, n = { m with memory, ports, journal }
  memory : m.memory.Wider more n.memory
  ports : m.ports.Wider n.ports

variable {more : List Word} {m n : Machine δ}

theorem Wider.eq (h : Wider more m n) :
    n = { m with memory := n.memory, ports := n.ports, journal := n.journal } := by
  obtain ⟨_, _, _, rfl⟩ := h.rest
  rfl

variable [Peripheral δ]

theorem Wider.drive (h : Wider more m n) (s : Signal) :
    Matched (Wider more) (m.drive s) (n.drive s) := by
  obtain ⟨⟨memory, ports, journal, rfl⟩, cells, wide⟩ := h
  cases s with
  | memoryOut =>
    simp only [Machine.drive]
    cases read : m.memory.read m.registers.address with
    | error e => exact .error _ _
    | ok w =>
      obtain ⟨_, same, rfl⟩ := cells.read _ w read
      rw [same]
      exact .ok ⟨⟨_, _, _, rfl⟩, cells, wide⟩
  | peripheralOut =>
    simp only [Machine.drive]
    cases drive : m.ports.drive m.registers.b with
    | error e => exact .error _ _
    | ok answer =>
      obtain ⟨⟨bus, next⟩, same, rfl, wide⟩ := wide.drive _ answer drive
      rw [same]
      exact .ok ⟨⟨_, _, _, rfl⟩, cells, wide⟩
  | _ => exact .ok ⟨⟨_, _, _, rfl⟩, cells, wide⟩

theorem Wider.latch (h : Wider more m n) (a : Word) (s : Signal) :
    Matched (Wider more) (m.latch a s) (n.latch a s) := by
  obtain ⟨⟨memory, ports, journal, rfl⟩, cells, wide⟩ := h
  cases s with
  | memoryIn =>
    simp only [Machine.latch]
    cases write : m.memory.write a m.bus with
    | error e => exact .error _ _
    | ok written =>
      obtain ⟨next, same, cells⟩ := cells.write _ _ written write
      rw [same]
      exact .ok ⟨⟨_, _, _, rfl⟩, cells, wide⟩
  | peripheralIn =>
    simp only [Machine.latch]
    cases write : m.ports.write a m.bus with
    | error e => exact .error _ _
    | ok answer =>
      obtain ⟨⟨next, notes⟩, same, wide, -⟩ := wide.write _ _ answer write
      rw [same]
      exact .ok ⟨⟨_, _, _, rfl⟩, cells, wide⟩
  | instructionIn =>
    simp only [Machine.latch, decode, latchRegister]
    cases Opcode.ofId? (m.registers.set .instruction m.bus).instruction with
    | none => exact .error _ _
    | some op => exact .ok ⟨⟨_, _, _, rfl⟩, cells, wide⟩
  | _ => exact .ok ⟨⟨_, _, _, rfl⟩, cells, wide⟩

theorem Wider.finish (h : Wider more m n) (w : ControlWord) :
    Wider more (m.finish w) (n.finish w) := by
  obtain ⟨⟨memory, ports, journal, rfl⟩, cells, wide⟩ := h
  unfold Machine.finish
  cases w.contains .halt with
  | false => cases w.contains .programCounterIncrement <;> exact ⟨⟨_, _, _, rfl⟩, cells, wide⟩
  | true =>
    cases w.contains .programCounterIncrement <;>
      exact ⟨⟨_, _, _, rfl⟩, cells, wide.disconnectAll⟩

theorem Wider.assert (h : Wider more m n) (w : ControlWord) :
    Matched (Wider more) (m.assert w) (n.assert w) := by
  have address : n.registers.address = m.registers.address := by
    obtain ⟨_, _, _, rfl⟩ := h.rest
    rfl
  unfold Machine.assert
  rw [address]
  refine (Matched.foldlM _ (fun s _ _ h => h.drive s) h).bind fun m n h => ?_
  refine (Matched.foldlM _ (fun s _ _ h => h.latch _ s) h).bind fun m n h => ?_
  exact .ok (h.finish w)

theorem Wider.tick (h : Wider more m n) {report : TickReport} (fine : m.tick.2 = .ok report) :
    Wider more m.tick.1 n.tick.1 ∧ n.tick.2 = .ok report := by
  have running : m.isRunning := isRunning_of_ok fine
  have start : Wider more (m.begun.note (.tick m.ticks m.word))
      (n.begun.note (.tick n.ticks n.word)) := by
    obtain ⟨⟨_, _, _, rfl⟩, cells, wide⟩ := h
    exact ⟨⟨_, _, _, rfl⟩, cells, wide⟩
  obtain ⟨word, runs⟩ : n.word = m.word ∧ n.isRunning = m.isRunning := by
    obtain ⟨_, _, _, rfl⟩ := h.rest
    exact ⟨rfl, rfl⟩
  rw [tick_running running] at fine ⊢
  rw [tick_running (runs.trans running), word]
  rw [word] at start
  cases outcome : (m.begun.note (.tick m.ticks m.word)).assert m.word with
  | error f =>
    rw [outcome] at fine
    exact nomatch fine
  | ok done =>
    obtain ⟨other, same, wider⟩ := start.assert m.word done outcome
    rw [outcome] at fine
    rw [same, ← fine]
    obtain ⟨⟨_, _, _, rfl⟩, cells, wide⟩ := wider
    exact ⟨⟨⟨_, _, _, rfl⟩, cells, wide⟩, rfl⟩

theorem Wider.after (h : Wider more m n) {count : Nat}
    (fine : ∀ i < count, ∃ report, (m.after i).tick.2 = .ok report) :
    Wider more (m.after count) (n.after count) := by
  induction count with
  | zero => exact h
  | succ count ih =>
    obtain ⟨report, answer⟩ := fine count (Nat.lt_succ_self count)
    exact ((ih fun i early => fine i (Nat.lt_succ_of_lt early)).tick answer).1

theorem ports_boot (image : Image) (memorySize : Nat) (devices : List δ) :
    (boot image memorySize devices).ports.ports = devices.map (⟨·, 0⟩) := by
  refine List.ext_getElem? fun p => ?_
  rw [(accounted_boot image memorySize devices).port, traffic_boot, List.getElem?_map]
  rfl

theorem wider_boot (image : Image) {small large : Nat} (size : small ≤ large) {few many : List δ}
    (present : few <+: many) :
    Wider ((boot image large many).memory.cells.toList.drop (small / 2))
      (boot image small few) (boot image large many) where
  rest := by
    obtain ⟨_, _, eq⟩ := boot_frame image small few
    obtain ⟨_, _, eq'⟩ := boot_frame image large many
    rw [eq, eq', ofImage, ofImage, load, load]
    split <;> split <;> exact ⟨_, _, _, rfl⟩
  memory := by
    have room : (Memory.zero small).length ≤ (Memory.zero large).length := by
      rw [Memory.length_zero, Memory.length_zero]
      exact Nat.div_le_div_right size
    rw [memory_boot, memory_boot, ← Memory.length_zero]
    exact Memory.wider_load room image.bytes
  ports := by
    refine ⟨?_, ?_, ?_⟩
    · rw [ports_boot, ports_boot]
      exact present.map _
    · rw [traffic_boot, traffic_boot]
      rfl
    · rw [traffic_boot]
      simp

/-- the ticks that a machine does without a fault, it does with more memory and more devices as
well, and gives the same answers: it comes to the same state but for its journal, for the further
cells, which are as they were loaded, and for the further ports, which have had no calls -/
theorem after_boot_wider (image : Image) {small large : Nat} (size : small ≤ large)
    {few many : List δ} (present : few <+: many) (count : Nat)
    (fine : ∀ i < count, ∃ report, ((boot image small few).after i).tick.2 = .ok report) :
    let start := boot image large many
    let m := (boot image small few).after count
    let n := start.after count
    (∀ i < count, (start.after i).tick.2 = ((boot image small few).after i).tick.2) ∧
      n = { m with memory := n.memory, ports := n.ports, journal := n.journal } ∧
      m.memory.length = small / 2 ∧
      n.memory.cells.toList =
        m.memory.cells.toList ++ start.memory.cells.toList.drop (small / 2) ∧
      Accounted few m.ports ∧ Accounted many n.ports ∧
      n.ports.ports.take few.length = m.ports.ports ∧
      n.ports.traffic.toList.filter (·.port < few.length) = m.ports.traffic.toList ∧
      ∀ x ∈ n.ports.traffic.toList, x.isCall → x.port < few.length := by
  intro start m n
  have wider : Wider (start.memory.cells.toList.drop (small / 2)) (boot image small few) start :=
    wider_boot image size present
  have last : Wider _ m n := wider.after fine
  have own : Accounted few m.ports := accounted_after (accounted_boot image small few) count
  have all : Accounted many n.ports := accounted_after (accounted_boot image large many) count
  have length : m.ports.length = few.length := own.length
  refine ⟨fun i early => ?_, last.eq, ?_, last.memory, own, all, ?_, ?_, ?_⟩
  · obtain ⟨report, answer⟩ := fine i early
    have before : Wider _ ((boot image small few).after i) (start.after i) :=
      wider.after fun j earlier => fine j (earlier.trans early)
    rw [answer]
    exact (before.tick answer).2
  · rw [length_memory_after, memory_boot, Memory.length_load, Memory.length_zero]
  · rw [← length]
    rw [PortTable.length_eq]
    exact (List.prefix_iff_eq_take.1 last.ports.ports).symm
  · rw [← length]
    exact last.ports.traffic
  · rw [← length]
    exact last.ports.quiet

/-- an image that only the larger memory holds whole, run to its end with one device and with
three -/
theorem after_boot_wider_cut :
    let image : Image := ⟨2, [.of .input, .of .output, ⟨(Opcode.store .io).id, 1⟩, .of .halt,
      ⟨7, 8⟩, ⟨9, 10⟩]⟩
    let few : List Device := [.probe 5 {}]
    let many : List Device := [.probe 5 {}, .mute, .probe 6 {}]
    let m := (boot image 25 few).after 29
    let n := (boot image 32 many).after 29
    few <+: many ∧ (∀ i < 29, ∃ report, ((boot image 25 few).after i).tick.2 = .ok report) ∧
      25 < image.bytes.length ∧ n.condition = .halted ∧ n.registers.io = 5 ∧
      n.memory.cells.toList = m.memory.cells.toList ++ [9, 10, 0, 0] ∧
      m.ports.traffic.toList = [.driven 0 5, .written 0 5, .disconnected 0] ∧
      n.ports.traffic.toList.filter (·.port < few.length) = m.ports.traffic.toList := by
  intro image few many
  have present : few <+: many := ⟨[.mute, .probe 6 {}], rfl⟩
  have succeeds : ∀ i < 29, ((boot image 25 few).after i).tick.2.isOk := by decide +kernel
  have fine : ∀ i < 29, ∃ report, ((boot image 25 few).after i).tick.2 = .ok report := by
    intro i early
    have ok := succeeds i early
    cases answer : ((boot image 25 few).after i).tick.2 with
    | ok report => exact ⟨report, rfl⟩
    | error e =>
      rw [answer] at ok
      exact nomatch ok
  obtain ⟨-, same, -, cells, -, -, -, traffic, -⟩ :=
    after_boot_wider image (by decide : 25 ≤ 32) present 29 fine
  have further : (boot image 32 many).memory.cells.toList.drop (25 / 2) = [9, 10, 0, 0] := by
    decide +kernel
  have halted : ((boot image 25 few).after 29).condition = .halted := by decide +kernel
  have five : ((boot image 25 few).after 29).registers.io = 5 := by decide +kernel
  have sent : ((boot image 25 few).after 29).ports.traffic.toList =
      [.driven 0 5, .written 0 5, .disconnected 0] := by decide +kernel
  rw [further] at cells
  -- the states themselves are not to be computed from here on
  generalize (boot image 25 few).after 29 = m at *
  generalize (boot image 32 many).after 29 = n at *
  exact ⟨present, fine, by decide, (congrArg condition same).trans halted,
    (congrArg (·.registers.io) same).trans five, cells, sent, traffic⟩

end Machine
end OneBus
