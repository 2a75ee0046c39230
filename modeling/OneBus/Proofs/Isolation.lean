import OneBus.Device
import OneBus.Proofs.Traffic

/-!
The ports of a table have nothing to do with each other. A call to a table is answered with the
number of a new port, with what the device there gives, or with a refusal that changes nothing; and
what a device has become is what the calls since its attachment that were granted at its own number
have made of it, one after the other. So a device that keeps count of what it was asked has counted
these calls and no others.
-/

namespace OneBus

theorem Word.index?_eq_some_iff_toInt {w : Word} {p : Nat} : w.index? = some p ↔ w.toInt = p := by
  rw [index?_eq_some_iff, BitVec.toInt_eq_toNat_cond]
  omega

/-- what a transfer takes from the port with the number `p` -/
def Transfer.driven? (p : Nat) : Transfer → Option Word
  | driven q value => if q = p then some value else none
  | _ => none

namespace PortTable

/-- a call to the table from outside -/
inductive Call (δ : Type)
  | attach (device : δ)
  | write (selector value : Word)
  | drive (selector : Word)
  | disconnectAll

inductive Answer
  | attached (port : Nat)
  | driven (value : Word)
  | done
  | refused (e : PortError)
  deriving DecidableEq

variable {δ : Type}

namespace Call

def device? : Call δ → Option δ
  | attach device => some device
  | _ => none

/-- the number that an attachment was answered with -/
def given? : Call δ × Answer → Option Nat
  | (attach _, .attached port) => some port
  | _ => none

/-- the value of a write to the port `p` that was carried out -/
def written? (p : Nat) : Call δ × Answer → Option Word
  | (write selector value, .done) => if selector.toInt = p then some value else none
  | _ => none

/-- the answer to a drive of the port `p` that was carried out -/
def driven? (p : Nat) : Call δ × Answer → Option Word
  | (drive selector, .driven value) => if selector.toInt = p then some value else none
  | _ => none

/-- what reaches the port `p` when it is there -/
def reaching? (p : Nat) : Call δ × Answer → Option Transfer
  | (write selector value, .done) => if selector.toInt = p then some (.written p value) else none
  | (drive selector, .driven value) => if selector.toInt = p then some (.driven p value) else none
  | (disconnectAll, .done) => some (.disconnected p)
  | _ => none

theorem reaching?_written? (p : Nat) (entry : Call δ × Answer) :
    (reaching? p entry).bind (Transfer.written? p) = written? p entry := by
  obtain ⟨c, answer⟩ := entry
  cases c <;> cases answer <;> simp only [reaching?, written?, Option.bind_none] <;>
    first | rfl | (split <;> simp [Transfer.written?])

theorem reaching?_driven? (p : Nat) (entry : Call δ × Answer) :
    (reaching? p entry).bind (Transfer.driven? p) = driven? p entry := by
  obtain ⟨c, answer⟩ := entry
  cases c <;> cases answer <;> simp only [reaching?, driven?, Option.bind_none] <;>
    first | rfl | (split <;> simp [Transfer.driven?])

end Call

def attachedBy (calls : List (Call δ)) : List δ := calls.filterMap Call.device?

/-- what has reached the port `p` since it is there -/
def heard (p : Nat) (log : List (Call δ × Answer)) : List Transfer :=
  (log.dropWhile fun entry => entry.2 ≠ .attached p).filterMap (Call.reaching? p)

variable [Peripheral δ]

def call (t : PortTable δ) : Call δ → PortTable δ × Answer
  | .attach device =>
    let (port, attached) := t.plug device
    (attached, .attached port)
  | .write selector value =>
    match t.write selector value with
    | .ok (written, _) => (written, .done)
    | .error e => (t, .refused e)
  | .drive selector =>
    match t.drive selector with
    | .ok (value, driven) => (driven, .driven value)
    | .error e => (t, .refused e)
  | .disconnectAll => (t.disconnectAll, .done)

/-- the table behind some calls -/
def behind (t : PortTable δ) (calls : List (Call δ)) : PortTable δ :=
  calls.foldl (fun t c => (t.call c).1) t

/-- the calls with their answers -/
def dialogue (t : PortTable δ) : List (Call δ) → List (Call δ × Answer)
  | [] => []
  | c :: rest => (c, (t.call c).2) :: (t.call c).1.dialogue rest

end PortTable

/-- a way to read off a device what it was asked to do, for those devices that keep it -/
structure Recorder (δ : Type) [Peripheral δ] where
  Is : δ → Prop
  writes : δ → List Word
  drives : δ → Nat
  write {d : δ} (value : Word) : Is d → Is (Peripheral.write d value).1 ∧
    writes (Peripheral.write d value).1 = writes d ++ [value] ∧
    drives (Peripheral.write d value).1 = drives d
  drive {d : δ} : Is d → Is (Peripheral.drive d).2 ∧ writes (Peripheral.drive d).2 = writes d ∧
    drives (Peripheral.drive d).2 = drives d + 1
  disconnect {d : δ} : Is d → Is (Peripheral.disconnect d) ∧
    writes (Peripheral.disconnect d) = writes d ∧ drives (Peripheral.disconnect d) = drives d

namespace PortTable

variable {δ : Type}

/-- the selector, read with its sign, is the number of a port -/
def Has (t : PortTable δ) (selector : Word) : Prop :=
  0 ≤ selector.toInt ∧ selector.toInt < t.length

instance (t : PortTable δ) (selector : Word) : Decidable (t.Has selector) :=
  inferInstanceAs (Decidable (_ ∧ _))

theorem has_iff {t : PortTable δ} {selector : Word} :
    t.Has selector ↔ 0 ≤ selector.toInt ∧ selector.toInt < t.ports.length := by
  rw [Has, length_eq]

theorem select?_cases (t : PortTable δ) (selector : Word) :
    (t.Has selector ∧ ∃ i port, selector.toInt = (i : Nat) ∧ t.ports[i]? = some port ∧
      t.select? selector = some (i, port)) ∨
      (¬ t.Has selector ∧ t.select? selector = none) := by
  rw [has_iff]
  cases select : t.select? selector with
  | some place =>
    obtain ⟨i, port⟩ := place
    obtain ⟨selects, there⟩ := select?_eq_some_iff.1 select
    have place := Word.index?_eq_some_iff_toInt.1 selects
    obtain ⟨bound, -⟩ := List.getElem?_eq_some_iff.1 there
    exact .inl ⟨⟨by omega, by omega⟩, i, port, place, there, rfl⟩
  | none =>
    refine .inr ⟨fun ⟨lower, upper⟩ => ?_, rfl⟩
    have place : selector.toInt = selector.toInt.toNat := by omega
    have bound : selector.toInt.toNat < t.ports.length := by omega
    have found := select?_eq_some_iff.2
      ⟨Word.index?_eq_some_iff_toInt.2 place, List.getElem?_eq_getElem bound⟩
    rw [select] at found
    cases found

variable [Peripheral δ]

theorem call_attach (t : PortTable δ) (device : δ) :
    t.call (.attach device) = (t.attach device, .attached t.length) := by
  rw [call, attach, plug_eq]

theorem call_write (t : PortTable δ) (selector value : Word) :
    (t.Has selector ∧ ∃ i port, selector.toInt = (i : Nat) ∧ t.ports[i]? = some port ∧
      t.call (.write selector value) = (t.record port (.written i value), .done)) ∨
      (¬ t.Has selector ∧ t.call (.write selector value) = (t, .refused ⟨selector⟩)) := by
  rcases t.select?_cases selector with ⟨has, i, port, place, there, select⟩ | ⟨outside, select⟩
  · obtain ⟨notes, written⟩ := write_of_select select value
    exact .inl ⟨has, i, port, place, there, by rw [call, written]⟩
  · exact .inr ⟨outside, by rw [call, write_error select]⟩

theorem call_drive (t : PortTable δ) (selector : Word) :
    (t.Has selector ∧ ∃ i port, selector.toInt = (i : Nat) ∧ t.ports[i]? = some port ∧
      t.call (.drive selector) = (t.record port (.driven i (Peripheral.drive port.device).1),
        .driven (Peripheral.drive port.device).1)) ∨
      (¬ t.Has selector ∧ t.call (.drive selector) = (t, .refused ⟨selector⟩)) := by
  rcases t.select?_cases selector with ⟨has, i, port, place, there, select⟩ | ⟨outside, select⟩
  · refine .inl ⟨has, i, port, place, there, ?_⟩
    rw [call, drive, select]
    rfl
  · exact .inr ⟨outside, by rw [call, drive_error select]⟩

/-- one call changes a port that is there by what reaches it, and a port that is not asked for
not at all -/
theorem port_call {t : PortTable δ} {p : Nat} {port : Port δ} (there : t.ports[p]? = some port)
    (c : Call δ) :
    (t.call c).1.ports[p]? =
      some ((Call.reaching? p (c, (t.call c).2)).toList.foldl (Transfer.deliver p) port) := by
  obtain ⟨bound, -⟩ := List.getElem?_eq_some_iff.1 there
  cases c with
  | attach device =>
    rw [call_attach, ports_attach, List.getElem?_append_left bound, there]
    rfl
  | write selector value =>
    rcases t.call_write selector value with ⟨-, i, q, place, selected, eq⟩ | ⟨-, eq⟩
    · rw [eq, getElem?_record selected, there]
      have asked : selector.toInt = p ↔ i = p := by omega
      by_cases same : i = p <;>
        simp [Call.reaching?, Transfer.deliver, Transfer.port, asked, same]
    · rw [eq]
      exact there
  | drive selector =>
    rcases t.call_drive selector with ⟨-, i, q, place, selected, eq⟩ | ⟨-, eq⟩
    · rw [eq, getElem?_record selected, there]
      have asked : selector.toInt = p ↔ i = p := by omega
      by_cases same : i = p <;>
        simp [Call.reaching?, Transfer.deliver, Transfer.port, asked, same]
    · rw [eq]
      exact there
  | disconnectAll =>
    have table : (t.call .disconnectAll).1.ports = t.ports.map (Port.map Peripheral.disconnect) :=
      ports_disconnectAll t
    rw [table, List.getElem?_map, there]
    simp [Call.reaching?, call, Transfer.deliver, Transfer.port, Transfer.reach, Port.map]

theorem length_call (t : PortTable δ) (c : Call δ) :
    (t.call c).1.length = t.length + c.device?.toList.length := by
  cases c with
  | attach device =>
    rw [call_attach, length_attach]
    rfl
  | write selector value =>
    rcases t.call_write selector value with ⟨-, i, q, -, -, eq⟩ | ⟨-, eq⟩
    · rw [eq, length_record]
      rfl
    · rw [eq]
      rfl
  | drive selector =>
    rcases t.call_drive selector with ⟨-, i, q, -, -, eq⟩ | ⟨-, eq⟩
    · rw [eq, length_record]
      rfl
    · rw [eq]
      rfl
  | disconnectAll => exact length_disconnectAll t

theorem answer_eq_attached_iff {t : PortTable δ} {c : Call δ} {p : Nat} :
    (t.call c).2 = .attached p ↔ c.device?.isSome ∧ t.length = p := by
  cases c with
  | attach device => simp [call_attach, Call.device?]
  | write selector value =>
    rcases t.call_write selector value with ⟨-, i, q, -, -, eq⟩ | ⟨-, eq⟩ <;>
      simp [eq, Call.device?]
  | drive selector =>
    rcases t.call_drive selector with ⟨-, i, q, -, -, eq⟩ | ⟨-, eq⟩ <;> simp [eq, Call.device?]
  | disconnectAll => simp [call, Call.device?]

theorem given?_call (t : PortTable δ) (c : Call δ) :
    Call.given? (c, (t.call c).2) = c.device?.map fun _ => t.length := by
  cases c with
  | attach device =>
    rw [call_attach]
    rfl
  | _ => rfl

omit [Peripheral δ] in
theorem attachedBy_cons (c : Call δ) (calls : List (Call δ)) :
    attachedBy (c :: calls) = c.device?.toList ++ attachedBy calls := by
  cases attaches : c.device? <;> simp [attachedBy, attaches]

theorem length_behind (t : PortTable δ) (calls : List (Call δ)) :
    (t.behind calls).length = t.length + (attachedBy calls).length := by
  induction calls generalizing t with
  | nil => rfl
  | cons c rest ih =>
    rw [attachedBy_cons, List.length_append, ← Nat.add_assoc, ← length_call]
    exact ih (t.call c).1

theorem given_dialogue (t : PortTable δ) (calls : List (Call δ)) :
    (t.dialogue calls).filterMap Call.given? = List.range' t.length (attachedBy calls).length := by
  induction calls generalizing t with
  | nil => rfl
  | cons c rest ih =>
    rw [dialogue, List.filterMap_cons, given?_call, ih, attachedBy_cons, length_call]
    cases c.device? with
    | none => simp
    | some device => simp [List.range'_succ]

theorem port_behind {t : PortTable δ} {p : Nat} {port : Port δ} (there : t.ports[p]? = some port)
    (calls : List (Call δ)) :
    (t.behind calls).ports[p]? =
      some (((t.dialogue calls).filterMap (Call.reaching? p)).foldl (Transfer.deliver p) port) := by
  induction calls generalizing t port with
  | nil => exact there
  | cons c rest ih =>
    refine (ih (port_call there c)).trans ?_
    rw [dialogue, List.filterMap_cons]
    cases Call.reaching? p (c, (t.call c).2) <;> rfl

theorem dialogue_append (t : PortTable δ) (before after : List (Call δ)) :
    t.dialogue (before ++ after) = t.dialogue before ++ (t.behind before).dialogue after := by
  induction before generalizing t with
  | nil => rfl
  | cons c rest ih => exact congrArg _ (ih (t.call c).1)

theorem quiet (t : PortTable δ) {p : Nat} {calls : List (Call δ)}
    (fresh : (t.behind calls).length ≤ p) :
    ∀ x ∈ t.dialogue calls,
      x.2 ≠ .attached p ∧ Call.written? p x = none ∧ Call.driven? p x = none := by
  induction calls generalizing t with
  | nil => simp [dialogue]
  | cons c rest ih =>
    have short : (t.call c).1.length ≤ p := by
      have all : t.behind (c :: rest) = (t.call c).1.behind rest := rfl
      rw [all, length_behind] at fresh
      omega
    refine List.forall_mem_cons.2 ⟨?_, ih (t.call c).1 fresh⟩
    rw [length_call] at short
    have beyond (i : Nat) (port : Port δ) (there : t.ports[i]? = some port) : i ≠ p := by
      have bound : i < t.length := lt_length there
      omega
    refine ⟨fun now => ?_, ?_⟩
    · obtain ⟨attaches, rfl⟩ := answer_eq_attached_iff.1 now
      obtain ⟨device, isNew⟩ := Option.isSome_iff_exists.1 attaches
      simp only [isNew, Option.toList_some, List.length_singleton] at short
      omega
    · cases c with
      | attach device => exact ⟨rfl, rfl⟩
      | write selector value =>
        rcases t.call_write selector value with ⟨-, i, port, place, there, eq⟩ | ⟨-, eq⟩
        · have other := beyond i port there
          have beside : selector.toInt ≠ p := by omega
          simp [eq, Call.written?, Call.driven?, beside]
        · simp [eq, Call.written?, Call.driven?]
      | drive selector =>
        rcases t.call_drive selector with ⟨-, i, port, place, there, eq⟩ | ⟨-, eq⟩
        · have other := beyond i port there
          have beside : selector.toInt ≠ p := by omega
          simp [eq, Call.written?, Call.driven?, beside]
        · simp [eq, Call.written?, Call.driven?]
      | disconnectAll => exact ⟨rfl, rfl⟩

omit [Peripheral δ] in
theorem exists_attach {calls : List (Call δ)} {i : Nat} {device : δ}
    (attached : (attachedBy calls)[i]? = some device) :
    ∃ before after, calls = before ++ .attach device :: after ∧ (attachedBy before).length = i := by
  obtain ⟨bound, at_i⟩ := List.getElem?_eq_some_iff.1 attached
  have split := (List.take_append_drop i (attachedBy calls)).symm
  rw [List.drop_eq_getElem_cons bound, at_i] at split
  obtain ⟨before, rest, rfl, earlier, later⟩ := List.filterMap_eq_append_iff.1 split
  obtain ⟨idle, c, after, rfl, silent, new, -⟩ := List.filterMap_eq_cons_iff.1 later
  refine ⟨before ++ idle, after, ?_, ?_⟩
  · obtain rfl : c = .attach device := by
      cases c <;> cases new
      rfl
    exact (List.append_assoc ..).symm
  · have none : idle.filterMap Call.device? = [] := List.filterMap_eq_nil_iff.2 silent
    rw [attachedBy, List.filterMap_append, none, List.append_nil, earlier, List.length_take]
    omega

/-- what is granted on a number is granted since a device was attached there, and the device has
become what that has made of it -/
theorem exists_since {calls : List (Call δ)} {i : Nat} {device : δ}
    (attached : (attachedBy calls)[i]? = some device) :
    ∃ later : List (Call δ × Answer),
      heard i (dialogue {} calls) = later.filterMap (Call.reaching? i) ∧
      (dialogue {} calls).filterMap (Call.written? i) = later.filterMap (Call.written? i) ∧
      (dialogue {} calls).filterMap (Call.driven? i) = later.filterMap (Call.driven? i) ∧
      (behind {} calls).ports[i]? =
        some (Transfer.delivered i device (later.filterMap (Call.reaching? i))) := by
  obtain ⟨before, after, rfl, count⟩ := exists_attach attached
  have length : (behind {} before).length = i := by
    rw [length_behind, count]
    exact Nat.zero_add i
  generalize earlier : behind {} before = t at length
  have fresh : (behind {} before).length ≤ i := by rw [earlier, length]
  have log : dialogue {} (before ++ .attach device :: after) =
      dialogue {} before ++ (.attach device, .attached i) :: (t.attach device).dialogue after := by
    rw [dialogue_append, earlier, dialogue, call_attach, length]
  have table : behind {} (before ++ .attach device :: after) = (t.attach device).behind after := by
    rw [behind, List.foldl_append, List.foldl_cons, ← earlier, ← behind, call_attach]
    rfl
  have there : (t.attach device).ports[i]? = some ⟨device, 0⟩ := by
    rw [← length, length_eq, ports_attach, List.getElem?_concat_length]
  refine ⟨(t.attach device).dialogue after, ?_, ?_, ?_, ?_⟩
  · have unanswered : ∀ x ∈ dialogue {} before, x.2 ≠ .attached i :=
      fun x mem => (quiet {} fresh x mem).1
    rw [log, heard, List.dropWhile_append_of_pos (by simpa using unanswered),
      List.dropWhile_cons_of_neg (by simp)]
    rfl
  · rw [log, List.filterMap_append,
      List.filterMap_eq_nil_iff.2 fun x mem => (quiet {} fresh x mem).2.1]
    rfl
  · rw [log, List.filterMap_append,
      List.filterMap_eq_nil_iff.2 fun x mem => (quiet {} fresh x mem).2.2]
    rfl
  · rw [table]
    exact port_behind there after

theorem heard_eq {calls : List (Call δ)} {i : Nat} {device : δ}
    (attached : (attachedBy calls)[i]? = some device) :
    (behind {} calls).ports[i]? =
        some (Transfer.delivered i device (heard i (dialogue {} calls))) ∧
      (heard i (dialogue {} calls)).filterMap (Transfer.written? i) =
        (dialogue {} calls).filterMap (Call.written? i) ∧
      (heard i (dialogue {} calls)).filterMap (Transfer.driven? i) =
        (dialogue {} calls).filterMap (Call.driven? i) := by
  obtain ⟨later, heard, written, driven, port⟩ := exists_since attached
  rw [heard, written, driven, List.filterMap_filterMap, List.filterMap_filterMap]
  refine ⟨port, List.filterMap_congr fun x _ => ?_, List.filterMap_congr fun x _ => ?_⟩
  · exact Call.reaching?_written? i x
  · exact Call.reaching?_driven? i x

end PortTable

namespace Recorder

open Transfer

variable {δ : Type} [Peripheral δ] (r : Recorder δ)

theorem kept_deliver {port : Port δ} (keeps : r.Is port.device) (p : Nat) (x : Transfer) :
    let got := (x.deliver p port).device
    r.Is got ∧ r.writes got = r.writes port.device ++ (x.written? p).toList ∧
      r.drives got = r.drives port.device + (x.driven? p).toList.length := by
  by_cases here : x.port = p
  · rw [deliver, if_pos here]
    subst here
    cases x with
    | written q value => simpa [reach, Transfer.port, written?, driven?] using r.write value keeps
    | driven q value => simpa [reach, Transfer.port, written?, driven?] using r.drive keeps
    | disconnected q => simpa [reach, Transfer.port, written?, driven?] using r.disconnect keeps
  · rw [deliver, if_neg here]
    cases x with
    | written q value =>
      have other : q ≠ p := here
      simpa [written?, driven?, other] using keeps
    | driven q value =>
      have other : q ≠ p := here
      simpa [written?, driven?, other] using keeps
    | disconnected q => simpa [written?, driven?] using keeps

theorem kept {device : δ} (keeps : r.Is device) (p : Nat) (traffic : List Transfer) :
    let got := (delivered p device traffic).device
    r.Is got ∧ r.writes got = r.writes device ++ traffic.filterMap (written? p) ∧
      r.drives got = r.drives device + (traffic.filterMap (driven? p)).length := by
  induction traffic using List.reverseRecOn with
  | nil => simpa [delivered] using keeps
  | append_singleton rest x ih =>
    obtain ⟨keeps, writes, drives⟩ := ih
    obtain ⟨still, more, count⟩ := r.kept_deliver keeps p x
    rw [delivered_concat]
    refine ⟨still, ?_, ?_⟩
    · rw [more, writes, List.append_assoc, List.filterMap_append]
      cases here : x.written? p <;> simp [here]
    · rw [count, drives, Nat.add_assoc, List.filterMap_append, List.length_append]
      cases here : x.driven? p <;> simp [here]

/-- the devices that serve to watch the ports: probes and echoes -/
def watching : Recorder Device where
  Is
    | .probe .. | .echo _ => True
    | _ => False
  writes
    | .probe _ calls | .echo calls => calls.writes.toList
    | _ => []
  drives
    | .probe _ calls | .echo calls => calls.drives
    | _ => 0
  write {d} value keeps := by
    cases d <;> first | exact keeps.elim | simp [Peripheral.write, Device.write]
  drive {d} keeps := by
    cases d <;> first | exact keeps.elim | simp [Peripheral.drive, Device.drive]
  disconnect {d} keeps := by
    cases d <;> first | exact keeps.elim | simp [Peripheral.disconnect, Device.disconnect]

end Recorder

namespace PortTable

section

variable {δ : Type} [Peripheral δ]

/-- what was last written to the port `p`, or zero -/
def latest (p : Nat) (log : List (Call δ × Answer)) : Word :=
  (log.filterMap (Call.written? p)).getLast?.getD 0

theorem length_behind_empty (calls : List (Call δ)) :
    (behind {} calls).length = (attachedBy calls).length :=
  (length_behind {} calls).trans (Nat.zero_add _)

theorem value?_behind (calls : List (Call δ)) (i : Nat) :
    (behind {} calls).value? i =
      if i < (attachedBy calls).length then some (latest i (dialogue {} calls)) else none := by
  by_cases bound : i < (attachedBy calls).length
  · obtain ⟨became, written, -⟩ := heard_eq (List.getElem?_eq_getElem bound)
    rw [value?_eq, became, if_pos bound, Option.map_some, Transfer.value_delivered, written, latest]
  · have beyond : (behind {} calls).ports[i]? = none := by
      rw [← length_behind_empty, length_eq] at bound
      exact List.getElem?_eq_none (Nat.not_lt.1 bound)
    rw [value?_eq, beyond, if_neg bound]
    rfl

omit [Peripheral δ] in
theorem getElem?_values (t : PortTable δ) (i : Nat) : t.values[i]? = (t.value? i).map (i, ·) := by
  rw [values_eq, value?_eq, List.getElem?_map, List.getElem?_zipIdx, Nat.zero_add]
  cases t.ports[i]? <;> rfl

theorem values_behind (calls : List (Call δ)) :
    (behind {} calls).values =
      (List.range (attachedBy calls).length).map fun i => (i, latest i (dialogue {} calls)) := by
  refine List.ext_getElem? fun i => ?_
  rw [getElem?_values, value?_behind, List.getElem?_map]
  by_cases bound : i < (attachedBy calls).length
  · rw [if_pos bound, List.getElem?_range bound]
    rfl
  · rw [if_neg bound, List.getElem?_eq_none (by simpa using bound)]
    rfl

section

variable {t : PortTable δ} {selector : Word}

theorem write_of_has (has : t.Has selector) (value : Word) :
    (t.call (.write selector value)).2 = .done := by
  rcases t.call_write selector value with ⟨-, i, port, -, -, eq⟩ | ⟨outside, -⟩
  · rw [eq]
  · exact absurd has outside

theorem drive_of_has (has : t.Has selector) : ∃ port, t.ports[selector.toNat]? = some port ∧
    (t.call (.drive selector)).2 = .driven (Peripheral.drive port.device).1 := by
  rcases t.call_drive selector with ⟨-, i, port, place, there, eq⟩ | ⟨outside, -⟩
  · have selects := (Word.index?_eq_some_iff.1 (Word.index?_eq_some_iff_toInt.2 place)).2
    exact ⟨port, by rw [selects, there], by rw [eq]⟩
  · exact absurd has outside

theorem refused_of_not_has (outside : ¬ t.Has selector) (value : Word) :
    t.call (.write selector value) = (t, .refused ⟨selector⟩) ∧
      t.call (.drive selector) = (t, .refused ⟨selector⟩) := by
  constructor
  · rcases t.call_write selector value with ⟨has, -⟩ | ⟨-, eq⟩
    · exact absurd has outside
    · exact eq
  · rcases t.call_drive selector with ⟨has, -⟩ | ⟨-, eq⟩
    · exact absurd has outside
    · exact eq

end

/-- a table with the devices that were attached to it, where `log` are the calls so far with their
answers -/
structure Isolated (t : PortTable δ) (log : List (Call δ × Answer)) (devices : List δ) : Prop where
  length : t.length = devices.length
  numbers : log.filterMap Call.given? = List.range devices.length
  writes (selector value : Word) : t.Has selector → (t.call (.write selector value)).2 = .done
  drives (selector : Word) : t.Has selector → ∃ port, t.ports[selector.toNat]? = some port ∧
    (t.call (.drive selector)).2 = .driven (Peripheral.drive port.device).1
  refused (selector value : Word) : ¬ t.Has selector →
    t.call (.write selector value) = (t, .refused ⟨selector⟩) ∧
      t.call (.drive selector) = (t, .refused ⟨selector⟩)
  port (i : Nat) (device : δ) : devices[i]? = some device →
    t.ports[i]? = some (Transfer.delivered i device (heard i log))
  recorded (i : Nat) (device : δ) (port : Port δ) (r : Recorder δ) : devices[i]? = some device →
    r.Is device → t.ports[i]? = some port →
      r.writes port.device = r.writes device ++ log.filterMap (Call.written? i) ∧
        r.drives port.device = r.drives device + (log.filterMap (Call.driven? i)).length
  value (i : Nat) : t.value? i = if i < devices.length then some (latest i log) else none
  values : t.values = (List.range devices.length).map fun i => (i, latest i log)

/-- Whatever is called on a table: the devices are given the numbers from zero on, in the order in
which they come. A write or a drive is carried out exactly if its selector is one of these numbers, and
changes nothing otherwise. Each device has become what the calls granted at its own number have made
of it, so one that keeps its writes and counts its drives has those of its own number, in order; and
each port has the value last written to it. -/
theorem isolated (calls : List (Call δ)) :
    Isolated (behind {} calls) (dialogue {} calls) (attachedBy calls) where
  length := length_behind_empty calls
  numbers := (given_dialogue {} calls).trans List.range_eq_range'.symm
  writes _ value inside := write_of_has inside value
  drives _ inside := drive_of_has inside
  refused _ value outside := refused_of_not_has outside value
  port _ _ attached := (heard_eq attached).1
  recorded i device port r attached keeps there := by
    obtain ⟨became, written, driven⟩ := heard_eq attached
    cases there.symm.trans became
    obtain ⟨-, writes, drives⟩ := r.kept keeps i (heard i (dialogue {} calls))
    exact ⟨by rw [writes, written], by rw [drives, driven]⟩
  value := value?_behind calls
  values := values_behind calls

end

/-- two probes, one attached later than the other, with calls on their numbers and beside them -/
theorem isolated_probes :
    let calls : List (Call Device) := [.attach (.probe 7 {}), .write 0 5, .write 1 6, .drive 0,
      .drive (-1), .disconnectAll, .attach (.probe 9 {}), .write 1 8, .write 0 (-3), .drive 1,
      .write 2 4, .write 0x8000 1, .drive 1]
    let t := behind {} calls
    (dialogue {} calls).map Prod.snd = [.attached 0, .done, .refused ⟨1⟩, .driven 7,
        .refused ⟨-1⟩, .done, .attached 1, .done, .done, .driven 9, .refused ⟨2⟩,
        .refused ⟨0x8000⟩, .driven 9] ∧
      (∃ port, t.ports[1]? = some port ∧ Recorder.watching.writes port.device = [8] ∧
        Recorder.watching.drives port.device = 2) ∧
      t.call (.write 2 4) = (t, .refused ⟨2⟩) ∧ (t.call (.write 1 4)).2 = .done ∧
      t.value? 0 = some (-3) ∧ t.value? 2 = none ∧ t.values = [(0, -3), (1, 8)] := by
  intro calls t
  have table := isolated calls
  have there := table.port 1 (.probe 9 {}) rfl
  obtain ⟨writes, drives⟩ :=
    table.recorded 1 (.probe 9 {}) _ Recorder.watching rfl trivial there
  refine ⟨by decide +kernel, ⟨_, there, ?_, ?_⟩, ?_, ?_, ?_, ?_, ?_⟩
  · rw [writes]
    decide +kernel
  · rw [drives]
    decide +kernel
  · exact (table.refused 2 4 (by decide +kernel)).1
  · exact table.writes 1 4 (by decide +kernel)
  · rw [table.value]
    decide +kernel
  · rw [table.value]
    decide +kernel
  · rw [table.values]
    decide +kernel

end PortTable
end OneBus
