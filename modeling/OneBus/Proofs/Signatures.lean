import OneBus.Proofs.Failing
import OneBus.Proofs.Mnemonics

/-!
What a statement must be to be encoded. Its operands have to fit the mnemonic, which is a matter of
their kinds and of the registers that opcodes exist for; its label has to be known, and its value
has to fit into a word. A statement that fits is a template with an address and a value filled in,
`exists_template`; from that the size of its code, and `encode_eq_error_iff`, what is said of one
that is refused.
-/

namespace OneBus.Assembly

/-- what may stand at a place of a statement; a target is an address or the label of one -/
inductive Slot
  | register | target | immediate
  deriving DecidableEq

def Operand.slot : Operand → Slot
  | .register _ => .register
  | .address _ | .label _ => .target
  | .numeral _ => .immediate

namespace Mnemonic

def signatures : Mnemonic → List (List Slot)
  | move => [[.register, .register]]
  | load | store => [[.register, .target]]
  | loadImmediate => [[.register, .immediate]]
  | storeImmediate => [[.target, .immediate]]
  | add | subtract | jump | jumpZero | jumpCarry => [[.target]]
  | sum | difference | output | halt => [[]]
  | input => [[], [.register]]

/-- there is an opcode for the registers; an input goes with any -/
def Available : Mnemonic → List Operand → Prop
  | move, [.register source, .register target] => (Opcode.moveOf? source target).isSome
  | load, .register r :: _ => (Opcode.loadOf? r).isSome
  | loadImmediate, .register r :: _ => (Opcode.loadImmediateOf? r).isSome
  | store, .register r :: _ => (Opcode.storeOf? r).isSome
  | _, _ => True

end Mnemonic

/-- an immediate is either reading of a word -/
def Immediate (n : Int) : Prop := -32768 ≤ n ∧ n ≤ 65535

namespace Statement

structure Fits (s : Statement) : Prop where
  signature : s.operands.map Operand.slot ∈ s.mnemonic.signatures
  opcode : s.mnemonic.Available s.operands

/-- what is said of operands that do not fit -/
def objection (s : Statement) : Cause :=
  match s.mnemonic, s.operands with
  | .move, [.register source, .register target] => .noMove source target
  | .load, [.register r, target] | .store, [.register r, target] =>
    if (GeneralRegister.ofRegister? r).isSome then .notAnAddress target.kind
    else .registerRefused r
  | .loadImmediate, [.register r, .numeral _] => .registerRefused r
  | .storeImmediate, [target, .numeral _] | .add, [target] | .subtract, [target] | .jump, [target]
  | .jumpZero, [target] | .jumpCarry, [target] => .notAnAddress target.kind
  | mnemonic, operands =>
    .badOperands s.spelling mnemonic.expects (operands.map Operand.kind)

/-- why a statement is refused, given the labels that are known -/
inductive Faulty (known : String → Prop) (s : Statement) : Cause → Prop
  | operands (misfit : ¬ s.Fits) : Faulty known s s.objection
  | label {name : String} (fits : s.Fits) (used : .label name ∈ s.operands)
    (unknown : ¬ known name) : Faulty known s (.undefinedLabel name)
  | value {n : Int} (fits : s.Fits) (labels : ∀ name, .label name ∈ s.operands → known name)
    (used : .numeral n ∈ s.operands) (wide : ¬ Immediate n) : Faulty known s (.outOfRange n)

end Statement

section

variable {symbols : Symbols}

theorem immediate_ok {n : Int} (h : Immediate n) : immediate n = .ok (.ofInt 16 n) := by
  unfold Immediate at h
  rw [immediate, if_pos (by omega)]

theorem immediate_error {n : Int} (h : ¬ Immediate n) : immediate n = .error (.outOfRange n) := by
  unfold Immediate at h
  rw [immediate, if_neg (by omega)]

theorem select_ok {f : Register → Option Opcode} {r : Register} (h : (f r).isSome) :
    ∃ op, select f r = .ok op := by
  obtain ⟨op, found⟩ := Option.isSome_iff_exists.1 h
  exact ⟨op, by rw [select, found]⟩

theorem select_error {f : Register → Option Opcode} {r : Register} (h : ¬ (f r).isSome) :
    select f r = .error (.registerRefused r) := by
  rw [Option.not_isSome_iff_eq_none] at h
  rw [select, h]

end

theorem slot_register {o : Operand} (h : o.slot = .register) : ∃ r, o = .register r := by
  cases o <;> first | contradiction | exact ⟨_, rfl⟩

theorem slot_immediate {o : Operand} (h : o.slot = .immediate) : ∃ n, o = .numeral n := by
  cases o <;> first | contradiction | exact ⟨_, rfl⟩

theorem slot_target {o : Operand} (h : o.slot = .target) :
    (∃ a, o = .address a) ∨ ∃ name, o = .label name := by
  cases o with
  | address a => exact .inl ⟨a, rfl⟩
  | label name => exact .inr ⟨name, rfl⟩
  | _ => contradiction

/-- the address among operands -/
def addressAmong (symbols : Symbols) (operands : List Operand) : Except Cause Word :=
  match operands.find? (·.slot = .target) with
  | some target => resolve symbols target
  | none => .ok 0

def Operand.value? : Operand → Option Int
  | .numeral n => some n
  | _ => none

/-- the value among operands -/
def valueAmong (operands : List Operand) : Except Cause Word :=
  match operands.findSome? Operand.value? with
  | some n => immediate n
  | none => .ok 0

/-- the code of a statement, but for an address and a value -/
inductive Template
  | bare (op : Opcode)
  | addressed (op : Opcode)
  | valued (op : Opcode)
  | pair (first second : Opcode)

namespace Template

def fill : Template → Word → Word → List Instruction
  | bare op, _, _ => [.of op]
  | addressed op, a, _ => [.of op a]
  | valued op, _, v => [.of op v]
  | pair first second, a, v => [.of first a, .of second v]

def size : Template → Nat
  | pair _ _ => 2
  | _ => 1

/-- the address goes into the first instruction -/
def IsAddressed : Template → Prop
  | addressed _ | pair _ _ => True
  | _ => False

theorem length_fill (t : Template) (a v : Word) : (t.fill a v).length = t.size := by
  cases t <;> rfl

theorem decode?_of (op : Opcode) (x : Word) : (Instruction.of op x).decode? = some op :=
  op.ofId?_id

theorem decode?_fill (t : Template) (a v : Word) :
    ∀ i ∈ t.fill a v, ∃ op, i.decode? = some op := by
  intro i h
  cases t <;> simp only [fill, List.mem_cons, List.not_mem_nil, or_false] at h
  case pair =>
    rcases h with rfl | rfl <;> exact ⟨_, decode?_of _ _⟩
  all_goals
    subst h
    exact ⟨_, decode?_of _ _⟩

theorem fill_eq_cons {t : Template} (h : t.IsAddressed) (a v : Word) :
    ∃ first rest, t.fill a v = first :: rest ∧ first.operand = a := by
  cases t with
  | addressed op => exact ⟨_, _, rfl, rfl⟩
  | pair first second => exact ⟨_, _, rfl, rfl⟩
  | _ => exact h.elim

end Template

/-- the code is the template with the address and the value among the operands filled in -/
structure Template.Makes (t : Template) (operands : List Operand)
    (code : Symbols → Except Cause (List Instruction)) : Prop where
  labels name : .label name ∈ operands → t.IsAddressed
  filled symbols : code symbols = addressAmong symbols operands >>= fun a =>
    valueAmong operands >>= fun v => .ok (t.fill a v)

namespace Form

variable (name : String) {r : Register} {target : Operand} {op : Opcode}

theorem makes_move {source target : Register}
    (found : Opcode.moveOf? source target = some op) :
    (Template.bare op).Makes [.register source, .register target] fun _ =>
      move name [.register source, .register target] where
  labels := by simp
  filled symbols := by
    simp only [move, found]
    rfl

theorem makes_addressed (slot : target.slot = .target) (op : Opcode) :
    (Template.addressed op).Makes [target] fun symbols => addressed symbols op target where
  labels _ _ := trivial
  filled symbols := by
    obtain ⟨a, rfl⟩ | ⟨label, rfl⟩ := slot_target slot <;> rfl

theorem makes_transfer {opcode? : Register → Option Opcode} (found : select opcode? r = .ok op)
    (slot : target.slot = .target) :
    (Template.addressed op).Makes [.register r, target] fun symbols =>
      transfer symbols name opcode? [.register r, target] where
  labels _ _ := trivial
  filled symbols := by
    simp only [transfer, found]
    exact (makes_addressed slot op).filled symbols

theorem makes_loadImmediate (found : select Opcode.loadImmediateOf? r = .ok op) (n : Int) :
    (Template.valued op).Makes [.register r, .numeral n] fun _ =>
      loadImmediate name [.register r, .numeral n] where
  labels := by simp
  filled symbols := by
    simp only [loadImmediate, found]
    rfl

theorem makes_storeImmediate (slot : target.slot = .target) (n : Int) :
    (Template.pair (.loadImmediate .address) .storeImmediate).Makes [target, .numeral n]
      fun symbols => storeImmediate symbols name [target, .numeral n] where
  labels _ _ := trivial
  filled symbols := by
    obtain ⟨a, rfl⟩ | ⟨label, rfl⟩ := slot_target slot <;> rfl

theorem makes_bare (op : Opcode) : (Template.bare op).Makes [] fun _ => bare name op [] where
  labels := by simp
  filled _ := rfl

theorem makes_input {operands : List Operand}
    (few : operands = [] ∨ ∃ r, operands = [.register r]) :
    (Template.bare .input).Makes operands fun _ => input name operands := by
  obtain rfl | ⟨r, rfl⟩ := few
  · exact ⟨by simp, fun _ => rfl⟩
  · exact ⟨by simp, fun _ => rfl⟩

section

variable {symbols : Symbols} {opcode? : Register → Option Opcode} {expected : String}
  {operands : List Operand} {code : List Instruction}

theorem exists_of_move (done : move name operands = .ok code) :
    ∃ source target op, operands = [.register source, .register target] ∧
      Opcode.moveOf? source target = some op ∧ code = [.of op] := by
  unfold move at done
  split at done
  · split at done
    · next found =>
      cases done
      exact ⟨_, _, _, rfl, found, rfl⟩
    · cases done
  · cases done

theorem exists_of_transfer (done : transfer symbols name opcode? operands = .ok code) :
    ∃ r target op, operands = [.register r, target] ∧ select opcode? r = .ok op ∧
      addressed symbols op target = .ok code := by
  unfold transfer at done
  split at done
  · obtain ⟨op, selected, rest⟩ := exists_ok_of_bind done
    exact ⟨_, _, op, rfl, selected, rest⟩
  · cases done

theorem exists_of_loadImmediate (done : loadImmediate name operands = .ok code) :
    ∃ r n op v, operands = [.register r, .numeral n] ∧
      select Opcode.loadImmediateOf? r = .ok op ∧ immediate n = .ok v ∧ code = [.of op v] := by
  unfold loadImmediate at done
  split at done
  · obtain ⟨op, selected, rest⟩ := exists_ok_of_bind done
    obtain ⟨v, value, last⟩ := exists_ok_of_bind rest
    cases last
    exact ⟨_, _, op, v, rfl, selected, value, rfl⟩
  · cases done

theorem exists_of_storeImmediate (done : storeImmediate symbols name operands = .ok code) :
    ∃ target n a v, operands = [target, .numeral n] ∧ resolve symbols target = .ok a ∧
      immediate n = .ok v ∧ code = [.of (.loadImmediate .address) a, .of .storeImmediate v] := by
  unfold storeImmediate at done
  split at done
  · obtain ⟨a, address, rest⟩ := exists_ok_of_bind done
    obtain ⟨v, value, last⟩ := exists_ok_of_bind rest
    cases last
    exact ⟨_, _, a, v, rfl, address, value, rfl⟩
  · cases done

theorem exists_of_single (done : single symbols name op expected operands = .ok code) :
    ∃ target, operands = [target] ∧ addressed symbols op target = .ok code := by
  unfold single at done
  split at done
  · exact ⟨_, rfl, done⟩
  · cases done

theorem of_bare (done : bare name op operands = .ok code) : operands = [] ∧ code = [.of op] := by
  unfold bare at done
  split at done
  · cases done
    exact ⟨rfl, rfl⟩
  · cases done

theorem of_input (done : input name operands = .ok code) :
    (operands = [] ∨ ∃ r, operands = [.register r]) ∧ code = [.of .input] := by
  unfold input at done
  split at done
  · cases done
    exact ⟨.inl rfl, rfl⟩
  · cases done
    exact ⟨.inr ⟨_, rfl⟩, rfl⟩
  · cases done

end

end Form

namespace Statement

variable {s : Statement}

theorem exists_template (fits : s.Fits) :
    ∃ t : Template, t.size = s.words ∧ t.Makes s.operands fun symbols => s.encode symbols := by
  obtain ⟨signature, opcode⟩ := fits
  simp only [encode_eq_form, words_eq]
  generalize s.mnemonic = mnemonic, s.spelling = name, s.operands = operands at signature opcode ⊢
  cases mnemonic <;>
    simp only [Mnemonic.signatures, List.mem_cons, List.not_mem_nil, or_false, List.map_eq_cons_iff,
      List.map_eq_nil_iff] at signature
  case move =>
    obtain ⟨_, _, rfl, first, _, _, rfl, second, rfl⟩ := signature
    obtain ⟨source, rfl⟩ := slot_register first
    obtain ⟨target, rfl⟩ := slot_register second
    obtain ⟨op, found⟩ := Option.isSome_iff_exists.1 opcode
    exact ⟨.bare op, rfl, Form.makes_move name found⟩
  case load =>
    obtain ⟨_, _, rfl, first, _, _, rfl, target, rfl⟩ := signature
    obtain ⟨r, rfl⟩ := slot_register first
    obtain ⟨op, found⟩ := select_ok (f := Opcode.loadOf?) opcode
    exact ⟨.addressed op, rfl, Form.makes_transfer name found target⟩
  case store =>
    obtain ⟨_, _, rfl, first, _, _, rfl, target, rfl⟩ := signature
    obtain ⟨r, rfl⟩ := slot_register first
    obtain ⟨op, found⟩ := select_ok (f := Opcode.storeOf?) opcode
    exact ⟨.addressed op, rfl, Form.makes_transfer name found target⟩
  case loadImmediate =>
    obtain ⟨_, _, rfl, first, _, _, rfl, second, rfl⟩ := signature
    obtain ⟨r, rfl⟩ := slot_register first
    obtain ⟨n, rfl⟩ := slot_immediate second
    obtain ⟨op, found⟩ := select_ok (f := Opcode.loadImmediateOf?) opcode
    exact ⟨.valued op, rfl, Form.makes_loadImmediate name found n⟩
  case storeImmediate =>
    obtain ⟨_, _, rfl, target, _, _, rfl, second, rfl⟩ := signature
    obtain ⟨n, rfl⟩ := slot_immediate second
    exact ⟨_, rfl, Form.makes_storeImmediate name target n⟩
  case add | subtract | jump | jumpZero | jumpCarry =>
    obtain ⟨_, _, rfl, target, rfl⟩ := signature
    exact ⟨_, rfl, Form.makes_addressed target _⟩
  case sum | difference | output | halt =>
    subst signature
    exact ⟨_, rfl, Form.makes_bare name _⟩
  case input =>
    refine ⟨_, rfl, Form.makes_input name (signature.imp_right ?_)⟩
    rintro ⟨_, _, rfl, first, rfl⟩
    obtain ⟨r, rfl⟩ := slot_register first
    exact ⟨r, rfl⟩

theorem resolve_misfit {o : Operand} (other : o.slot ≠ .target) (symbols : Symbols) :
    resolve symbols o = .error (.notAnAddress o.kind) := by
  cases o <;> first | contradiction | rfl

theorem addressed_misfit {o : Operand} (other : o.slot ≠ .target) (op : Opcode)
    (symbols : Symbols) : addressed symbols op o = .error (.notAnAddress o.kind) := by
  rw [addressed, resolve_misfit other]
  rfl

theorem direct_misfit {opcode : GeneralRegister → Opcode} {r : Register} {o : Operand}
    (misfit : (GeneralRegister.ofRegister? r).isSome → o.slot ≠ .target) (symbols : Symbols) :
    (select (fun r => (GeneralRegister.ofRegister? r).map opcode) r >>= fun op =>
        addressed symbols op o) =
      .error (if (GeneralRegister.ofRegister? r).isSome then .notAnAddress o.kind
        else .registerRefused r) := by
  by_cases general : (GeneralRegister.ofRegister? r).isSome
  · obtain ⟨op, found⟩ := select_ok (r := r)
      (f := fun r => (GeneralRegister.ofRegister? r).map opcode) (by simpa using general)
    rw [found, if_pos general]
    exact addressed_misfit (misfit general) op symbols
  · rw [select_error (by simpa using general), if_neg general]
    rfl

theorem encode_misfit (misfit : ¬ s.Fits) (symbols : Symbols) :
    s.encode symbols = .error s.objection := by
  have apart : s.operands.map Operand.slot ∈ s.mnemonic.signatures →
      ¬ s.mnemonic.Available s.operands := fun signature opcode => misfit ⟨signature, opcode⟩
  rw [encode_eq_form, objection]
  generalize s.mnemonic = mnemonic, s.spelling = name, s.operands = operands at apart ⊢
  cases mnemonic <;> dsimp only [Mnemonic.form]
  case move =>
    unfold Form.move
    split
    · next source target =>
      cases found : Opcode.moveOf? source target with
      | none => rfl
      | some op =>
        exact (apart List.mem_cons_self (Option.isSome_iff_exists.2 ⟨op, found⟩)).elim
    · split <;> simp_all [Form.mismatch, Mnemonic.expects]
  case load | store =>
    unfold Form.transfer
    split
    · next r target =>
      refine direct_misfit (fun general slot => apart ?_ (Option.isSome_map.trans general)) symbols
      change [Slot.register, target.slot] ∈ _
      rw [slot]
      exact List.mem_cons_self
    · split <;> simp_all [Form.mismatch, Mnemonic.expects]
  case loadImmediate =>
    unfold Form.loadImmediate
    split
    · next r n =>
      rw [select_error fun opcode => apart List.mem_cons_self opcode]
      rfl
    · split <;> simp_all [Form.mismatch, Mnemonic.expects]
  case storeImmediate =>
    unfold Form.storeImmediate
    split
    · next target n =>
      rw [resolve_misfit fun slot => apart ?_ trivial]
      · rfl
      · change [target.slot, Slot.immediate] ∈ _
        rw [slot]
        exact List.mem_cons_self
    · split <;> simp_all [Form.mismatch, Mnemonic.expects]
  case add | subtract | jump | jumpZero | jumpCarry =>
    unfold Form.single
    split
    · next target =>
      refine addressed_misfit (fun slot => apart ?_ trivial) _ symbols
      simp [Mnemonic.signatures, slot]
    · split <;> simp_all [Form.mismatch, Mnemonic.expects]
  case sum | difference | output | halt =>
    unfold Form.bare
    split
    · exact (apart List.mem_cons_self trivial).elim
    · rfl
  case input =>
    unfold Form.input
    split
    · exact (apart List.mem_cons_self trivial).elim
    · exact (apart (List.mem_cons_of_mem _ List.mem_cons_self) trivial).elim
    · rfl

theorem not_faulty_iff {known : String → Prop} : (∀ cause, ¬ s.Faulty known cause) ↔
    s.Fits ∧ (∀ name, .label name ∈ s.operands → known name) ∧
      ∀ n, .numeral n ∈ s.operands → Immediate n := by
  constructor
  · intro sound
    have fits : s.Fits := by
      by_contra misfit
      exact sound _ (.operands misfit)
    have labels : ∀ name, .label name ∈ s.operands → known name := by
      intro name used
      by_contra unknown
      exact sound _ (.label fits used unknown)
    refine ⟨fits, labels, fun n used => ?_⟩
    by_contra wide
    exact sound _ (.value fits labels used wide)
  · rintro ⟨fits, labels, small⟩ cause faulty
    cases faulty with
    | operands misfit => exact misfit fits
    | label _ used unknown => exact unknown (labels _ used)
    | value _ _ used wide => exact wide (small _ used)

/-- a statement has one place for a target and one for a value at most -/
theorem Fits.unique (fits : s.Fits) {k : Slot} (other : k ≠ .register) {x y : Operand}
    (hx : x ∈ s.operands) (hy : y ∈ s.operands) (kx : x.slot = k) (ky : y.slot = k) : x = y := by
  have once : ∀ (m : Mnemonic), ∀ slots ∈ m.signatures, slots.count k ≤ 1 := by
    intro m
    cases m <;> cases k <;> first | contradiction | decide
  have few := once _ _ fits.signature
  rw [List.count, List.countP_map, List.countP_eq_length_filter] at few
  have mem {o : Operand} (h : o ∈ s.operands) (ho : o.slot = k) :
      o ∈ s.operands.filter ((· == k) ∘ Operand.slot) := by
    simp [h, ho]
  replace hx := mem hx kx
  replace hy := mem hy ky
  match list : s.operands.filter ((· == k) ∘ Operand.slot) with
  | [] => simp [list] at hx
  | [o] =>
    rw [list, List.mem_singleton] at hx hy
    rw [hx, hy]
  | _ :: _ :: _ => simp [list] at few

theorem addressAmong_label (fits : s.Fits) {name : String} (used : .label name ∈ s.operands)
    (symbols : Symbols) : addressAmong symbols s.operands = resolve symbols (.label name) := by
  cases found : s.operands.find? (·.slot = .target) with
  | none =>
    have none := List.find?_eq_none.1 found _ used
    simp [Operand.slot] at none
  | some o =>
    have target : o.slot = .target := by simpa using List.find?_some found
    have same : o = .label name :=
      fits.unique (by decide) (List.mem_of_find?_eq_some found) used target rfl
    rw [addressAmong, found, same]

theorem addressAmong_ok {symbols : Symbols}
    (known : ∀ name, .label name ∈ s.operands → (symbols.lookup name).isSome) :
    ∃ a, addressAmong symbols s.operands = .ok a := by
  cases found : s.operands.find? (·.slot = .target) with
  | none => exact ⟨0, by rw [addressAmong, found]⟩
  | some o =>
    have used := List.mem_of_find?_eq_some found
    obtain ⟨a, rfl⟩ | ⟨name, rfl⟩ := slot_target (by simpa using List.find?_some found)
    · exact ⟨a, by rw [addressAmong, found]; rfl⟩
    · obtain ⟨a, entry⟩ := Option.isSome_iff_exists.1 (known name used)
      exact ⟨a, by rw [addressAmong, found]; simp only [resolve, entry]⟩

theorem value?_eq_some {o : Operand} {n : Int} (h : o.value? = some n) : o = .numeral n := by
  cases o with
  | numeral m =>
    cases h
    rfl
  | _ => cases h

theorem valueAmong_numeral (fits : s.Fits) {n : Int} (used : .numeral n ∈ s.operands) :
    valueAmong s.operands = immediate n := by
  cases found : s.operands.findSome? Operand.value? with
  | none => cases List.findSome?_eq_none_iff.1 found _ used
  | some m =>
    obtain ⟨o, mem, value⟩ := List.exists_of_findSome?_eq_some found
    cases value?_eq_some value
    cases fits.unique (k := .immediate) (by decide) mem used rfl rfl
    rw [valueAmong, found]

theorem valueAmong_ok (small : ∀ n, .numeral n ∈ s.operands → Immediate n) :
    ∃ v, valueAmong s.operands = .ok v := by
  cases found : s.operands.findSome? Operand.value? with
  | none => exact ⟨0, by rw [valueAmong, found]⟩
  | some n =>
    obtain ⟨o, mem, value⟩ := List.exists_of_findSome?_eq_some found
    cases value?_eq_some value
    exact ⟨_, by rw [valueAmong, found]; exact immediate_ok (small n mem)⟩

section

variable {symbols : Symbols}

theorem encode_undefined (fits : s.Fits) {name : String} (used : .label name ∈ s.operands)
    (unknown : ¬ (symbols.lookup name).isSome) :
    s.encode symbols = .error (.undefinedLabel name) := by
  obtain ⟨t, -, -, encode⟩ := exists_template fits
  have none : symbols.lookup name = none := Option.not_isSome_iff_eq_none.1 unknown
  rw [encode, addressAmong_label fits used, resolve, none]
  rfl

theorem encode_outOfRange (fits : s.Fits)
    (labels : ∀ name, .label name ∈ s.operands → (symbols.lookup name).isSome) {n : Int}
    (used : .numeral n ∈ s.operands) (wide : ¬ Immediate n) :
    s.encode symbols = .error (.outOfRange n) := by
  obtain ⟨t, -, -, encode⟩ := exists_template fits
  obtain ⟨a, address⟩ := addressAmong_ok labels
  rw [encode, address, valueAmong_numeral fits used, immediate_error wide]
  rfl

theorem encode_ok (fits : s.Fits)
    (labels : ∀ name, .label name ∈ s.operands → (symbols.lookup name).isSome)
    (small : ∀ n, .numeral n ∈ s.operands → Immediate n) : ∃ is, s.encode symbols = .ok is := by
  obtain ⟨t, -, -, encode⟩ := exists_template fits
  obtain ⟨a, address⟩ := addressAmong_ok labels
  obtain ⟨v, value⟩ := valueAmong_ok small
  exact ⟨t.fill a v, by rw [encode, address, value]; rfl⟩

theorem encode_of_faulty {cause : Cause}
    (h : s.Faulty (fun name => (symbols.lookup name).isSome) cause) :
    s.encode symbols = .error cause := by
  cases h with
  | operands misfit => exact encode_misfit misfit symbols
  | label fits used unknown => exact encode_undefined fits used unknown
  | value fits labels used wide => exact encode_outOfRange fits labels used wide

theorem encode_eq_error_iff {cause : Cause} :
    s.encode symbols = .error cause ↔
      s.Faulty (fun name => (symbols.lookup name).isSome) cause := by
  refine ⟨fun h => ?_, encode_of_faulty⟩
  by_cases sound : ∀ other, ¬ s.Faulty (fun name => (symbols.lookup name).isSome) other
  · obtain ⟨fits, labels, small⟩ := not_faulty_iff.1 sound
    obtain ⟨is, ok⟩ := encode_ok fits labels small
    cases h.symm.trans ok
  · push Not at sound
    obtain ⟨other, faulty⟩ := sound
    -- one fault is reported, so it is the same
    cases h.symm.trans (encode_of_faulty faulty)
    exact faulty

theorem fits_of_encode {is : List Instruction} (h : s.encode symbols = .ok is) : s.Fits := by
  by_contra misfit
  cases h.symm.trans (encode_misfit misfit symbols)

theorem encode_code {is : List Instruction} (h : s.encode symbols = .ok is) :
    is.length = s.words ∧ (∀ i ∈ is, ∃ op, i.decode? = some op) ∧
      ∀ name, .label name ∈ s.operands →
        ∃ first rest, is = first :: rest ∧ symbols.lookup name = some first.operand := by
  have fits := fits_of_encode h
  obtain ⟨t, size, addressed, encode⟩ := exists_template fits
  rw [encode] at h
  obtain ⟨a, address, h⟩ := exists_ok_of_bind h
  obtain ⟨v, value, h⟩ := exists_ok_of_bind h
  cases h
  refine ⟨(t.length_fill a v).trans size, t.decode?_fill a v, fun name used => ?_⟩
  obtain ⟨first, rest, fill, operand⟩ := Template.fill_eq_cons (addressed name used) a v
  refine ⟨first, rest, fill, ?_⟩
  rw [addressAmong_label fits used] at address
  cases entry : symbols.lookup name with
  | none => simp only [resolve, entry] at address; cases address
  | some b =>
    simp only [resolve, entry] at address
    cases address
    rw [operand]

end

end Statement

end OneBus.Assembly
