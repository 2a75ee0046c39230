import OneBus.Proofs.Consistency
import OneBus.Proofs.Executed
import OneBus.Proofs.Simultaneity

/-!
The sign of the arithmetic unit while a microprogram runs that was queued from outside. It belongs
to the program and not to the word that enables the unit: one word that asks to subtract right
behind a load of `A` or `B` makes all of the program subtract, and an opcode that a word decodes
brings its own sign along. What a word adds or subtracts into the accumulator right behind a load
is then read off its tick.
-/

namespace OneBus

namespace Microprogram

theorem subtracts_iff {words : List ControlWord} :
    subtracts words ↔ ∃ x y, [x, y] <:+: words ∧ x.loadsAlu ∧ y.contains .subtract := by
  fun_induction subtracts words with
  | case1 x y rest ih =>
    have front (x' y' : ControlWord) : [x', y'] <:+: x :: y :: rest ↔
        x' = x ∧ y' = y ∨ [x', y'] <:+: y :: rest := by
      rw [List.infix_cons_iff]
      simp
    rw [Bool.or_eq_true, Bool.and_eq_true, ih]
    simp only [front]
    constructor
    · rintro (⟨loads, asks⟩ | ⟨x', y', pair, loads, asks⟩)
      · exact ⟨x, y, .inl ⟨rfl, rfl⟩, loads, asks⟩
      · exact ⟨x', y', .inr pair, loads, asks⟩
    · rintro ⟨x', y', ⟨rfl, rfl⟩ | pair, loads, asks⟩
      · exact .inl ⟨loads, asks⟩
      · exact .inr ⟨x', y', pair, loads, asks⟩
  | case2 words short =>
    refine ⟨nofun, ?_⟩
    rintro ⟨x, y, pair, -⟩
    obtain ⟨before, after, rfl⟩ := pair
    cases before with
    | nil => exact (short x y after rfl).elim
    | cons a before => cases before <;> exact (short _ _ _ rfl).elim

theorem operation_eq_subtract_iff {p : Microprogram} :
    p.operation = .subtract ↔
      ∃ x y, [x, y] <:+: p.words ∧ x.loadsAlu ∧ y.contains .subtract := by
  rw [← subtracts_iff, operation]
  cases subtracts p.words <;> simp

end Microprogram

/-- the sign in force behind some decoded opcodes: that of the last one, or the one at the start -/
def Operation.behind (sign : Operation) (past : List Opcode) : Operation :=
  (past.getLast?.map (·.microprogram.operation)).getD sign

namespace Machine

variable {δ : Type} [Peripheral δ]

theorem operation_tick {m : Machine δ} (runs : m.tick.1.isRunning) :
    m.tick.1.operation = m.operation.behind m.decodes?.toList := by
  have control := (tick_control runs).2
  split at control
  · obtain ⟨op, some, control⟩ := control
    rw [some]
    exact congrArg Control.operation control
  · rw [control.1]
    exact congrArg Control.operation control.2

/-- ticks leave the sign of the opcode decoded last -/
theorem operation_after {m : Machine δ} {n : Nat} (runs : (m.after n).isRunning) :
    (m.after n).operation = m.operation.behind (m.history n) := by
  induction n with
  | zero => rfl
  | succ n ih =>
    have step : (m.after (n + 1)).operation = _ := operation_tick runs
    rw [step, ih (isRunning_of_after runs), history_succ]
    cases (m.after n).decodes? <;> simp [Operation.behind]

/-- while words are pending, ticks take them one by one, and what is decoded waits behind them -/
theorem queue_after {m : Machine δ} {words : List ControlWord} (queue : m.queue = words) {n : Nat}
    (bound : n ≤ words.length) (runs : (m.after n).isRunning) :
    ∃ more, (m.after n).queue = words.drop n ++ more ∧
      (m.history n).length = (words.take n).countP (·.contains .instructionIn) := by
  induction n with
  | zero => exact ⟨[], queue.trans (List.append_nil _).symm, rfl⟩
  | succ n ih =>
    obtain ⟨more, before, count⟩ := ih (by omega) (isRunning_of_after runs)
    have bound : n < words.length := bound
    rw [List.drop_eq_getElem_cons bound] at before
    have pending : (m.after n).pending = words[n] :: (words.drop (n + 1) ++ more) :=
      pending_of_queue before (List.cons_ne_nil _ _)
    rw [history_succ, List.take_add_one, List.countP_append, List.length_append, count]
    cases decodes : words[n].contains .instructionIn with
    | false =>
      obtain ⟨none, control⟩ := tick_plain pending decodes runs
      refine ⟨more, congrArg Control.queue control, ?_⟩
      rw [none]
      simp [bound, decodes]
    | true =>
      obtain ⟨op, some, control⟩ := tick_decoding pending decodes runs
      refine ⟨more ++ op.microprogram.words, ?_, ?_⟩
      · exact (congrArg Control.queue control).trans (List.append_assoc ..)
      · rw [some]
        simp [bound, decodes]

theorem word_after {m : Machine δ} {before after : List ControlWord} {w : ControlWord}
    (queue : m.queue = before ++ w :: after) (runs : (m.after before.length).isRunning) :
    (m.after before.length).word = w := by
  obtain ⟨more, left, -⟩ := queue_after queue (by simp) runs
  rw [List.drop_left] at left
  exact word_of_pending (pending_of_queue left (List.cons_ne_nil _ _))

theorem accumulator_tick {m : Machine δ} (quiet : m.bus = 0) (loads : m.word.loadsAlu)
    {first second : TickReport} (loaded : m.tick.2 = .ok first)
    (enables : m.tick.1.word.contains .aluEnable) (takes : m.tick.1.word.contains .accumulatorIn)
    (alone : m.tick.1.word.registerDrivers = [])
    (silent : m.tick.1.word.contains .peripheralOut = false)
    (added : m.tick.1.tick.2 = .ok second) :
    m.tick.1.tick.1.registers.accumulator =
      m.tick.1.operation.apply m.tick.1.registers.a m.tick.1.registers.b := by
  have load := ((tick_atOnce quiet (isRunning_of_ok loaded)).2 first loaded).2
  have add := ((tick_atOnce (bus_tick quiet) (isRunning_of_ok added)).2 second added).2
  have alu := load.alu
  rw [if_pos loads] at alu
  have source : m.tick.1.word.source? = none := by
    rw [ControlWord.registerDrivers_eq, List.map_eq_nil_iff] at alone
    rw [ControlWord.source?, alone]
    rfl
  have taken : m.tick.1.word.takes .accumulator := by
    simp [ControlWord.takes, Register.inLines, takes]
  have carried : m.tick.1.carried m.tick.1.word = m.tick.1.alu.result m.tick.1.operation := by
    simp only [carried, source, silent, enables, if_true, Bool.false_eq_true, if_false]
  have accumulator := add.registers .accumulator (by decide)
  rw [if_pos taken, carried, alu] at accumulator
  exact accumulator

/-- what a microprogram adds or subtracts into the accumulator has one sign, whichever word asks
for it: the sign of the whole program, or that of an opcode that it decodes before -/
theorem program_sign (memorySize : Nat) (calls : List (Action δ)) (p : Microprogram)
    (before after : List ControlWord) (w w' : ControlWord) :
    let m := calls.foldl Machine.act (new memorySize : Machine δ)
    let k := m.enqueue p
    let n := before.length + 1
    m.isRunning → m.phase = .idle → p.words = before ++ w :: w' :: after → w.loadsAlu →
      w'.contains .aluEnable → w'.contains .accumulatorIn → w'.registerDrivers = [] →
      w'.contains .peripheralOut = false →
      (∀ i ≤ n, ∃ report, (k.after i).tick.2 = .ok report) →
      (k.after (n + 1)).registers.accumulator =
          (p.operation.behind (k.history n)).apply (k.after n).registers.a
            (k.after n).registers.b ∧
        (k.history n).length = (before ++ [w]).countP (·.contains .instructionIn) ∧
        (p.operation = .subtract ↔
          ∃ x y, [x, y] <:+: p.words ∧ x.loadsAlu ∧ y.contains .subtract) := by
  intro m k n running idle words loads enables takes alone silent succeeds
  have empty : m.queue = [] := (idle_foldl_act (by simp [new]) calls).1 idle
  have queue : k.queue = before ++ w :: w' :: after := by
    change m.queue ++ p.words = _
    rw [empty, words, List.nil_append]
  have start : k.bus = 0 := bus_foldl_act (m := new memorySize) rfl calls
  have quiet : (k.after before.length).bus = 0 :=
    after_keeps (P := fun j => j.bus = 0) (fun _ quiet => bus_tick quiet) start _
  obtain ⟨first, loaded⟩ := succeeds before.length (by omega)
  obtain ⟨second, added⟩ := succeeds n le_rfl
  have runs : (k.after n).isRunning := isRunning_of_ok added
  have here : (k.after before.length).word = w := word_after queue (isRunning_of_ok loaded)
  have next : (k.after n).word = w' := by
    have rest : k.queue = (before ++ [w]) ++ w' :: after := by simp [queue]
    have place : (before ++ [w]).length = n := by simp [n]
    rw [← place]
    exact word_after rest (place ▸ runs)
  have sum := accumulator_tick quiet (here ▸ loads) loaded (next ▸ enables) (next ▸ takes)
    (next ▸ alone) (next ▸ silent) added
  refine ⟨?_, ?_, Microprogram.operation_eq_subtract_iff⟩
  · have sign : (k.after n).operation = p.operation.behind (k.history n) := operation_after runs
    rw [← sign]
    exact sum
  · obtain ⟨-, -, count⟩ := queue_after queue (n := n) (by simp [n]) runs
    rw [count]
    congr 1
    simp [n, List.take_append]

/-- an opcode decoded with the load of `B` adds, although the word behind it asks to subtract -/
theorem program_sign_decoded :
    let w := ControlWord.ofList [.memoryOut, .instructionIn, .bIn]
    let w' := ControlWord.ofList [.aluEnable, .accumulatorIn, .subtract]
    let m : Machine Device := [.poke 0 Opcode.add.id, .setRegister .a 2].foldl act (new 4)
    let k := m.enqueue ⟨w, w', .empty⟩
    m.isRunning ∧ m.phase = .idle ∧ Microprogram.operation ⟨w, w', .empty⟩ = .subtract ∧
      k.history 1 = [.add] ∧
      (k.after 2).registers.accumulator = (k.after 1).registers.a + (k.after 1).registers.b := by
  intro w w' m k
  have running : m.isRunning := by decide
  have idle : m.phase = .idle := by decide
  have history : k.history 1 = [.add] := by decide
  have succeeds : ∀ i ≤ 1, ∃ report, (k.after i).tick.2 = .ok report := by
    intro i bound
    obtain rfl | rfl : i = 0 ∨ i = 1 := by omega
    · exact ⟨⟨w, some .add, Opcode.add.id⟩, by decide⟩
    · exact ⟨⟨w', none, Opcode.add.id + 2⟩, by decide⟩
  obtain ⟨sum, -, -⟩ := program_sign 4 [.poke 0 Opcode.add.id, .setRegister .a 2] ⟨w, w', .empty⟩
    [] [] w w' running idle (by decide) (by decide) (by decide) (by decide) (by decide) (by decide)
    succeeds
  have asks : Microprogram.operation ⟨w, w', .empty⟩ = .subtract := by decide
  have sum : (k.after 2).registers.accumulator =
      ((Microprogram.operation ⟨w, w', .empty⟩).behind (k.history 1)).apply
        (k.after 1).registers.a (k.after 1).registers.b := sum
  rw [history] at sum
  exact ⟨running, idle, asks, history, sum⟩

/-- the last word does not ask to subtract, but the one before it does -/
theorem program_sign_earlier :
    let w := ControlWord.ofList [.accumulatorOut, .bIn, .subtract]
    let w' := ControlWord.ofList [.aluEnable, .accumulatorIn]
    let p : Microprogram := ⟨.ofList [.ioOut, .aIn], w, w'⟩
    let m : Machine Device := [.setRegister .io 9, .setRegister .accumulator 4].foldl act (new 4)
    let k := m.enqueue p
    m.isRunning ∧ m.phase = .idle ∧ p.words = [p.first, w, w'] ∧ w.loadsAlu ∧
      w'.contains .aluEnable ∧ w'.contains .accumulatorIn ∧ w'.registerDrivers = [] ∧
      w'.contains .peripheralOut = false ∧ w'.contains .subtract = false ∧
      (∀ i ≤ 2, ∃ report, (k.after i).tick.2 = .ok report) ∧
      (k.after 3).registers.accumulator ≠ (k.after 2).registers.a + (k.after 2).registers.b := by
  intro w w' p m k
  refine ⟨by decide, by decide, by decide, by decide, by decide, by decide, by decide, by decide,
    by decide, ?_, by decide⟩
  intro i bound
  obtain rfl | rfl | rfl : i = 0 ∨ i = 1 ∨ i = 2 := by omega
  · exact ⟨⟨p.first, none, 9⟩, by decide⟩
  · exact ⟨⟨w, none, 4⟩, by decide⟩
  · exact ⟨⟨w', none, 5⟩, by decide⟩

end Machine

end OneBus
