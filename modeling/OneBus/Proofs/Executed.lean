import OneBus.Proofs.Fetching

/-!
The instructions that a run completes. A tick completes an instruction if it succeeds and leaves
the sequencer between two instructions; then the tick was the last one of the opcode decoded last,
and as many ticks back as the opcode takes the machine stood between two instructions as well. So
the instructions completed are those decoded, but for one that may be in progress.
-/

namespace OneBus

theorem duration_append_list (front back : List Opcode) :
    duration (front ++ back) = duration front + duration back := by
  rw [← length_script, ← length_script, ← length_script, script, List.flatMap_append,
    List.length_append]
  rfl

theorem duration_le_of_prefix {front ops : List Opcode} (h : front <+: ops) :
    duration front ≤ duration ops := by
  obtain ⟨back, rfl⟩ := h
  rw [duration_append_list]
  omega

theorem duration_gap (ops : List Opcode) : duration ops = 0 ∨ 6 ≤ duration ops := by
  cases ops with
  | nil => exact .inl rfl
  | cons op rest =>
    change op.cost + duration rest = 0 ∨ 6 ≤ op.cost + duration rest
    rw [Opcode.cost]
    omega

theorem Place.idle_of_length {c : Control} {ops past : List Opcode} {words : List ControlWord}
    (h : Place c ops words) (length : words.length = duration past)
    (along : past <+: ops ∨ ops <+: past) : c.queue = [] ∧ c.phase = .idle := by
  cases h with
  | idle queue phase => exact ⟨queue, phase⟩
  | opening j lower upper queue phase =>
    rw [List.length_append, length_script, List.length_take, fetch_length] at length
    rcases along with short | ⟨more, rfl⟩
    · have := duration_le_of_prefix short
      omega
    · have := duration_gap more
      rw [duration_append_list] at length
      omega
  | @within before op spent decoded split pending =>
    have bound : spent.length < op.cost := by
      have total := congrArg List.length split
      have some := List.length_pos_iff.2 pending
      rw [List.length_append, List.length_append, fetch_length] at total
      rw [Opcode.cost]
      omega
    rw [List.length_append, length_script] at length
    have whole := duration_append before op
    rcases along with short | long
    · rcases List.prefix_concat_iff.1 short with rfl | short
      · omega
      · have := duration_le_of_prefix short
        omega
    · have := duration_le_of_prefix long
      omega

/-- the lines that reach beyond registers and memory, and the one opcode that has each of them -/
def Opcode.ofLine? : Signal → Option Opcode
  | .peripheralIn => some .output
  | .peripheralOut => some .input
  | .halt => some .halt
  | _ => none

namespace Opcode

variable {special op : Opcode} {s : Signal} {w : ControlWord} (line : ofLine? s = some special)
  (asserts : w.contains s)

include line asserts

theorem fetch_of_line : w ∉ fetch := by
  have all : ∀ s ∈ Signal.all, (ofLine? s).isSome → ∀ w ∈ fetch, w.contains s = false := by decide
  intro mem
  rw [all s s.mem_all (by rw [line]; rfl) w mem] at asserts
  cases asserts

theorem words_of_line (mem : w ∈ op.microprogram.words) :
    op = special ∧ op.microprogram.words = [w] := by
  have all : ∀ s ∈ [.peripheralIn, .peripheralOut, .halt], ∀ o ∈ all, ∀ w ∈ o.microprogram.words,
      w.contains s → some o = ofLine? s ∧ o.microprogram.words = [w] := by decide +kernel
  have known : s ∈ [.peripheralIn, .peripheralOut, .halt] := by
    cases s <;> first | decide | cases line
  obtain ⟨same, one⟩ := all s known op op.mem_all w mem asserts
  exact ⟨Option.some.inj (same.trans line), one⟩

/-- a line that only one opcode has is asserted right behind a fetch, and an instruction is over with
it -/
theorem split_of_line {spent rest : List ControlWord}
    (split : fetch ++ op.microprogram.words = spent ++ w :: rest) :
    op = special ∧ spent = fetch ∧ rest = [] := by
  rcases List.append_eq_append_iff.1 split with ⟨more, rfl, words⟩ | ⟨more, front, words⟩
  · have mem : w ∈ op.microprogram.words := by simp [words]
    obtain ⟨same, one⟩ := words_of_line line asserts mem
    have length := congrArg List.length words
    rw [one, List.length_append, List.length_singleton, List.length_cons] at length
    obtain rfl : more = [] := List.length_eq_zero_iff.1 (by omega)
    exact ⟨same, List.append_nil fetch, List.length_eq_zero_iff.1 (by omega)⟩
  · cases more with
    | nil =>
      have words : op.microprogram.words = w :: rest := words.symm
      have mem : w ∈ op.microprogram.words := by simp [words]
      obtain ⟨same, one⟩ := words_of_line line asserts mem
      exact ⟨same, by simpa using front.symm, (List.cons.inj (words.symm.trans one)).2⟩
    | cons first more =>
      obtain ⟨rfl, -⟩ := List.cons.inj words
      exact absurd (by rw [front]; simp) (fetch_of_line line asserts)

end Opcode

namespace Machine

variable {δ : Type}

theorem place_of_line {m : Machine δ} {past : List Opcode} {words : List ControlWord}
    (h : Place m.control past words) {special : Opcode} {s : Signal}
    (line : Opcode.ofLine? s = some special) (asserts : m.word.contains s) :
    ∃ before, past = before ++ [special] ∧ words = script before ++ fetch ∧
      m.queue = special.microprogram.words ∧ m.current = some special := by
  have fetching {j : Nat} (pending : m.pending = fetch.drop j) (some : fetch.drop j ≠ []) :
      False := by
    obtain ⟨w, rest, eq⟩ := List.exists_cons_of_ne_nil some
    have mem : w ∈ fetch := List.mem_of_mem_drop (eq ▸ List.mem_cons_self)
    rw [word_of_pending (pending.trans eq)] at asserts
    exact Opcode.fetch_of_line line asserts mem
  cases h with
  | idle queue phase =>
    have queue : m.queue = [] := queue
    exact (fetching (j := 0) (by simp [Machine.pending, queue]) (by decide)).elim
  | opening j lower upper queue phase =>
    have some : fetch.drop j ≠ [] := by
      rw [ne_eq, List.drop_eq_nil_iff, fetch_length]
      omega
    exact (fetching (pending_of_queue queue some) some).elim
  | @within before op spent decoded split pending phase current sign =>
    obtain ⟨w, rest, queue⟩ := List.exists_cons_of_ne_nil pending
    rw [queue] at split
    have pending : m.pending = w :: rest := pending_of_queue queue (List.cons_ne_nil w rest)
    rw [word_of_pending pending] at asserts
    obtain ⟨rfl, rfl, rfl⟩ := Opcode.split_of_line line asserts split
    exact ⟨before, rfl, rfl, queue.trans (List.append_cancel_left split).symm, current⟩

variable [Peripheral δ] {m : Machine δ}

theorem history_prefix (m : Machine δ) {i n : Nat} (h : i ≤ n) : m.history i <+: m.history n := by
  induction h with
  | refl => exact List.prefix_rfl
  | step _ ih =>
    rw [history_succ]
    exact ih.trans (List.prefix_append _ _)

theorem idle_at_duration (queue : m.queue = []) (phase : m.phase = .idle) {n : Nat}
    {past : List Opcode} (runs : (m.after n).isRunning) (history : past <+: m.history n)
    (bound : duration past ≤ n) :
    (m.after (duration past)).queue = [] ∧ (m.after (duration past)).phase = .idle := by
  have runs := isRunning_of_le bound runs
  have count := (counters_after m runs).2.1
  exact (place_after queue phase runs).idle_of_length count
    (List.prefix_or_prefix_of_prefix history (m.history_prefix bound))

/-- the opcode that the next tick completes -/
def completes? (m : Machine δ) : Option Opcode :=
  match m.tick.2 with
  | .ok _ => if m.tick.1.phase = .idle then m.tick.1.current else none
  | .error _ => none

theorem completes?_of_error {e : MachineError} (fails : m.tick.2 = .error e) :
    m.completes? = none := by
  rw [completes?, fails]

theorem completes?_of_ok {report : TickReport} (done : m.tick.2 = .ok report)
    (idle : m.tick.1.phase = .idle) : m.completes? = m.tick.1.current := by
  rw [completes?, done]
  exact if_pos idle

theorem exists_of_completes? {op : Opcode} (completes : m.completes? = some op) :
    ∃ report, m.tick.2 = .ok report ∧ m.tick.1.phase = .idle ∧ m.tick.1.current = some op := by
  unfold completes? at completes
  cases answer : m.tick.2 with
  | error e =>
    rw [answer] at completes
    cases completes
  | ok report =>
    rw [answer] at completes
    obtain ⟨idle, current⟩ := Option.ite_none_right_eq_some.1 completes
    exact ⟨report, rfl, idle, current⟩

theorem condition_of_ok {report : TickReport} (done : m.tick.2 = .ok report) :
    m.tick.1.condition = if m.word.contains .halt then .halted else .running := by
  have running := isRunning_of_ok done
  let Q (n : Machine δ) : Prop := n.condition = .running
  let R (n : Machine δ) : Prop :=
    n.condition = if m.word.contains .halt then .halted else .running
  have ends : Ends R Q ((m.begun.note (.tick m.ticks m.word)).assert m.word) := by
    refine assert_ends m.word (eq_of_beq running) ?_ ?_ ?_
    · exact fun n s _ h => Ends.drive s (fun _ => h) fun _ _ _ _ => h
    · exact fun n a s _ h =>
        Ends.latch a s h (fun _ _ => h) (fun _ _ _ _ => h) (fun _ _ => h) fun _ _ _ => h
    · intro n h
      unfold R finish
      cases m.word.contains .halt with
      | true => rfl
      | false => cases m.word.contains .programCounterIncrement <;> exact h
  rw [tick_running running] at done ⊢
  cases outcome : (m.begun.note (.tick m.ticks m.word)).assert m.word with
  | error f =>
    rw [outcome] at done
    cases done
  | ok n =>
    rw [outcome] at ends
    exact ends

theorem halts_of_ok {report : TickReport} (done : m.tick.2 = .ok report)
    (stops : ¬ m.tick.1.isRunning) : m.word.contains .halt := by
  by_contra plain
  have runs : m.tick.1.condition = .running := by rw [condition_of_ok done, if_neg plain]
  exact stops (by rw [isRunning, runs]; rfl)

section

variable {past : List Opcode} {words : List ControlWord}

theorem completes?_of_idle (h : Place m.control past words) (runs : m.tick.1.isRunning)
    (idle : m.tick.1.phase = .idle) :
    ∃ before op spent, m.completes? = some op ∧ past = before ++ [op] ∧
      words = script before ++ spent ∧ fetch ++ op.microprogram.words = spent ++ [m.word] := by
  obtain ⟨bus, done⟩ := (tick_control runs).1
  have completes := completes?_of_ok done idle
  have length := congrArg List.length ((place_tick h runs).words_eq idle)
  rw [List.length_append, length_script, duration_append_list] at length
  have gap := duration_gap m.decodes?.toList
  cases h with
  | idle queue phase =>
    rw [length_script, List.length_singleton] at length
    omega
  | opening j lower upper queue phase =>
    rw [List.length_append, length_script, List.length_take, fetch_length,
      List.length_singleton] at length
    omega
  | @within before op spent decoded split pending phase current sign =>
    obtain ⟨w, rest, queue⟩ := List.exists_cons_of_ne_nil pending
    rw [queue] at split
    have pending : m.pending = w :: rest := pending_of_queue queue (List.cons_ne_nil w rest)
    obtain ⟨-, control⟩ := tick_plain pending (plain_of_split decoded split) runs
    have finished : (if rest.isEmpty then Phase.idle else .executing) = .idle :=
      (congrArg Control.phase control).symm.trans idle
    have last : rest = [] := by
      by_contra more
      simp [more] at finished
    have same : m.tick.1.current = some op := (congrArg Control.current control).trans current
    rw [last] at split
    exact ⟨before, op, spent, completes.trans same, rfl, rfl,
      by rw [split, word_of_pending pending]⟩

theorem place_completing (h : Place m.control past words) {op : Opcode}
    (completes : m.completes? = some op) :
    ∃ before spent, past = before ++ [op] ∧ words = script before ++ spent ∧
      fetch ++ op.microprogram.words = spent ++ [m.word] := by
  obtain ⟨report, done, idle, current⟩ := exists_of_completes? completes
  by_cases runs : m.tick.1.isRunning
  · obtain ⟨before, last, spent, same, past, words, split⟩ := completes?_of_idle h runs idle
    cases completes.symm.trans same
    exact ⟨before, spent, past, words, split⟩
  · -- only the halt ends an instruction and the machine with it
    obtain ⟨before, past, words, queue, opcode⟩ :=
      place_of_line h (rfl : Opcode.ofLine? .halt = some .halt) (halts_of_ok done runs)
    have word : m.word = .ofList [.halt] := word_of_pending (pending_of_queue queue (by decide))
    have same : m.tick.1.current = m.current := by
      rw [tick_running (isRunning_of_ok done), word, assert_halt]
      rfl
    cases current.symm.trans (same.trans opcode)
    exact ⟨before, fetch, past, words, by rw [word]; rfl⟩

end

end Machine

/-- an instruction that is over, with the machine ahead of it and behind it -/
structure Execution (δ : Type) where
  op : Opcode
  before : Machine δ
  behind : Machine δ

namespace Machine

variable {δ : Type} [Peripheral δ]

/-- the instruction that is over with the tick behind the first `i` ones -/
def completion? (m : Machine δ) (i : Nat) : Option (Execution δ) :=
  (m.after i).completes?.map fun op => ⟨op, m.after (i + 1 - op.cost), m.after (i + 1)⟩

/-- the instructions that the first ticks complete -/
def executed (m : Machine δ) (n : Nat) : List (Execution δ) :=
  (List.range n).filterMap m.completion?

theorem executed_succ (m : Machine δ) (n : Nat) :
    m.executed (n + 1) = m.executed n ++ (m.completion? n).toList := by
  rw [executed, List.range_succ, List.filterMap_append, ← executed, List.filterMap_cons]
  cases m.completion? n <;> rfl

theorem isRunning_of_completion? {m : Machine δ} {i : Nat} {e : Execution δ}
    (h : m.completion? i = some e) : (m.after i).isRunning := by
  obtain ⟨op, completes, -⟩ := Option.map_eq_some_iff.1 h
  obtain ⟨report, done, -, -⟩ := exists_of_completes? completes
  exact isRunning_of_ok done

/-- the instruction `e` began behind those in `past` and is over with the tick behind the first
`i` ones -/
structure Completed (m : Machine δ) (i : Nat) (past : List Opcode) (e : Execution δ) : Prop where
  history : m.history i = past ++ [e.op]
  ticks : i + 1 = duration past + e.op.cost
  before : e.before = m.after (duration past)
  behind : e.behind = m.after (i + 1)
  running : e.before.isRunning
  queue : e.before.queue = []
  phase : e.before.phase = .idle
  last : (fetch ++ e.op.microprogram.words).getLast? = some (m.after i).word

section

variable {m : Machine δ} (queue : m.queue = []) (phase : m.phase = .idle)

include queue phase

theorem exists_completed {i : Nat} {e : Execution δ} (h : m.completion? i = some e) :
    ∃ past, m.Completed i past e := by
  have runs := isRunning_of_completion? h
  obtain ⟨op, completes, rfl⟩ := Option.map_eq_some_iff.1 h
  obtain ⟨past, spent, history, words, split⟩ :=
    place_completing (place_after queue phase runs) completes
  have count := (counters_after m runs).2.1
  have length := congrArg List.length split
  rw [words, List.length_append, length_script] at count
  rw [List.length_append, List.length_append, fetch_length, List.length_singleton,
    ← Opcode.cost] at length
  have start : i + 1 - op.cost = duration past := by omega
  have along : past <+: m.history i := history ▸ List.prefix_append past [op]
  obtain ⟨empty, idle⟩ := idle_at_duration queue phase runs along (by omega)
  have last : (fetch ++ op.microprogram.words).getLast? = some (m.after i).word := by
    rw [split, List.getLast?_concat]
  rw [start]
  exact ⟨past, history, by dsimp only; omega, rfl, rfl, isRunning_of_le (by omega) runs, empty,
    idle, last⟩

/-- the instructions completed are those decoded, but for one in progress -/
theorem executed_ops {n : Nat} (runs : (m.after n).isRunning) :
    ((m.executed n).map Execution.op = m.history n ∧ duration (m.history n) ≤ n) ∨
      ∃ op, m.history n = (m.executed n).map Execution.op ++ [op] ∧ n < duration (m.history n) := by
  induction n with
  | zero => exact .inl ⟨rfl, le_rfl⟩
  | succ n ih =>
    have running := isRunning_of_after runs
    rw [executed_succ, history_succ, List.map_append]
    cases finished : m.completion? n with
    | some e =>
      obtain ⟨past, done⟩ := exists_completed queue phase finished
      have ticks := done.ticks
      have whole : duration (m.history n) = n + 1 := by
        rw [done.history, duration_append, ticks]
      have plain : (m.after n).decodes? = none := by
        cases decodes : (m.after n).decodes? with
        | none => rfl
        | some op =>
          have := decoding_tick queue phase decodes
          omega
      rw [plain, Option.toList_none, List.append_nil]
      rcases ih running with ⟨-, early⟩ | ⟨op, history, -⟩
      · omega
      · obtain ⟨same, last⟩ := List.append_inj' (history.symm.trans done.history) rfl
        exact .inl ⟨by rw [same, done.history]; rfl, by omega⟩
    | none =>
      have going : duration (m.history n) ≠ n + 1 := by
        intro whole
        have along : m.history n <+: m.history (n + 1) := m.history_prefix n.le_succ
        have idle := (idle_at_duration queue phase runs along whole.le).2
        rw [whole] at idle
        obtain ⟨_, _, _, completes, -⟩ :=
          completes?_of_idle (place_after queue phase running) runs idle
        rw [completion?, completes] at finished
        cases finished
      rw [Option.toList_none, List.map_nil, List.append_nil]
      cases decodes : (m.after n).decodes? with
      | none =>
        rw [Option.toList_none, List.append_nil]
        rcases ih running with ⟨same, early⟩ | ⟨op, history, late⟩
        · exact .inl ⟨same, by omega⟩
        · exact .inr ⟨op, history, by omega⟩
      | some op =>
        have third := decoding_tick queue phase decodes
        rcases ih running with ⟨same, -⟩ | ⟨_, -, late⟩
        · refine .inr ⟨op, by rw [same]; rfl, ?_⟩
          rw [Option.toList_some, duration_append, Opcode.cost]
          omega
        · omega

theorem executed_ops_of_idle {n : Nat} (runs : (m.after n).isRunning)
    (idle : (m.after n).phase = .idle) : (m.executed n).map Execution.op = m.history n := by
  rcases executed_ops queue phase runs with ⟨same, -⟩ | ⟨op, -, late⟩
  · exact same
  · have words := (place_after queue phase runs).words_eq idle
    have count := (counters_after m runs).2.1
    rw [words, length_script] at count
    omega

end

end Machine
end OneBus
