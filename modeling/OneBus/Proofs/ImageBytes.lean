import OneBus.Image

/-!
Images as bytes. Reading undoes writing; of other bytes, those that are too short for a header or
have another marker are refused, and all others are read as if zeros stood behind them up to the
next whole instruction. So a file may be longer than its image, which shows in zeros at the end of
the body only, or shorter, which cuts the body where the file ends.
-/

namespace OneBus

section fit

theorem fitBytes_zero (bs : List UInt8) : fitBytes 0 bs = [] := by
  simp [fitBytes]

theorem fitBytes_nil (n : Nat) : fitBytes n [] = List.replicate n 0 := by
  simp [fitBytes]

theorem fitBytes_cons (n : Nat) (b : UInt8) (bs : List UInt8) :
    fitBytes (n + 1) (b :: bs) = b :: fitBytes n bs := by
  simp [fitBytes]

theorem length_fitBytes (n : Nat) (bs : List UInt8) : (fitBytes n bs).length = n := by
  simp only [fitBytes, List.length_append, List.length_take, List.length_replicate]
  omega

theorem getElem?_fill {α : Type} (d : α) (n i : Nat) (l : List α) :
    (l.take n ++ List.replicate (n - l.length) d)[i]? =
      if i < n then some (l[i]?.getD d) else none := by
  have taken : (l.take n).length = min n l.length := List.length_take
  by_cases inside : i < n
  · rw [if_pos inside]
    by_cases there : i < l.length
    · rw [List.getElem?_append_left (by omega), List.getElem?_take_of_lt inside,
        List.getElem?_eq_getElem there]
      rfl
    · have none : l[i]? = none := List.getElem?_eq_none (by omega)
      rw [List.getElem?_append_right (by omega), List.getElem?_replicate, if_pos (by omega), none]
      rfl
  · rw [if_neg inside, List.getElem?_eq_none]
    rw [List.length_append, List.length_replicate]
    omega

theorem getElem?_fitBytes (n i : Nat) (bs : List UInt8) :
    (fitBytes n bs)[i]? = if i < n then some (bs[i]?.getD 0) else none :=
  getElem?_fill 0 n i bs

/-- a length in between does not show, unless it cuts what would be kept -/
theorem fitBytes_fitBytes {n k : Nat} {bs : List UInt8} (h : min bs.length k ≤ n) :
    fitBytes k (fitBytes n bs) = fitBytes k bs := by
  refine List.ext_getElem? fun i => ?_
  rw [getElem?_fitBytes, getElem?_fitBytes, getElem?_fitBytes]
  by_cases inside : i < k
  · by_cases kept : i < n
    · rw [if_pos kept]
      rfl
    · have beyond : bs.length ≤ i := by omega
      rw [if_neg kept, List.getElem?_eq_none beyond]
  · rw [if_neg inside, if_neg inside]

end fit

theorem Word.bytes_ofBytes (low high : UInt8) : (ofBytes low high).bytes = [low, high] := by
  rw [bytes, low_ofBytes, high_ofBytes]

namespace Instruction

/-- the instructions of a byte stream; what a cut last one lacks is zero -/
def ofByteList (bs : List UInt8) : List Instruction := ofHalves (Word.ofByteList bs)

/-- what the first so many bytes of an instruction say, with zeros for the others -/
def cut (i : Instruction) : Nat → Instruction
  | 0 => {}
  | 1 => ⟨Word.ofBytes i.opcode.low 0, 0⟩
  | 2 => ⟨i.opcode, 0⟩
  | 3 => ⟨i.opcode, Word.ofBytes i.operand.low 0⟩
  | _ => i

theorem bytes_eq (i : Instruction) :
    i.bytes = [i.opcode.low, i.opcode.high, i.operand.low, i.operand.high] := rfl

theorem ofByteList_rest (a b c : UInt8) :
    ofByteList [a] = [⟨Word.ofBytes a 0, Word.ofBytes 0 0⟩] ∧
      ofByteList [a, b] = [⟨Word.ofBytes a b, Word.ofBytes 0 0⟩] ∧
      ofByteList [a, b, c] = [⟨Word.ofBytes a b, Word.ofBytes c 0⟩] :=
  ⟨rfl, rfl, rfl⟩

theorem ofByteList_cons (a b c d : UInt8) (rest : List UInt8) :
    ofByteList (a :: b :: c :: d :: rest) =
      ⟨Word.ofBytes a b, Word.ofBytes c d⟩ :: ofByteList rest := by
  rw [ofByteList, Word.ofByteList_cons, Word.ofByteList_cons, ofHalves_cons, ← ofByteList]

theorem ofByteList_bytes (body : List Instruction) : ofByteList (body.flatMap bytes) = body := by
  have halves : body.flatMap bytes = (body.flatMap halves).flatMap Word.bytes := by
    rw [List.flatMap_assoc]
    rfl
  rw [ofByteList, halves, Word.ofByteList_bytes, ofHalves_halves]

theorem ofByteList_zeros :
    ∀ n, ofByteList (List.replicate n 0) = List.replicate ((n + 3) / 4) ⟨0, 0⟩
  | 0 | 1 | 2 | 3 => rfl
  | n + 4 => by
    have more : (n + 4 + 3) / 4 = (n + 3) / 4 + 1 := by omega
    rw [more]
    exact (ofByteList_cons 0 0 0 0 _).trans (congrArg _ (ofByteList_zeros n))

theorem bytes_mk (a b c d : UInt8) :
    bytes ⟨Word.ofBytes a b, Word.ofBytes c d⟩ = [a, b, c, d] := by
  rw [bytes_eq, Word.low_ofBytes, Word.high_ofBytes, Word.low_ofBytes, Word.high_ofBytes]

theorem bytes_ofByteList : ∀ bs : List UInt8,
    (ofByteList bs).flatMap bytes = fitBytes (4 * ((bs.length + 3) / 4)) bs
  | [] => rfl
  | [a] => by
    rw [(ofByteList_rest a 0 0).1, List.flatMap_singleton, bytes_mk]
    simp [fitBytes]
  | [a, b] => by
    rw [(ofByteList_rest a b 0).2.1, List.flatMap_singleton, bytes_mk]
    simp [fitBytes]
  | [a, b, c] => by
    rw [(ofByteList_rest a b c).2.2, List.flatMap_singleton, bytes_mk]
    simp [fitBytes]
  | a :: b :: c :: d :: rest => by
    have more : 4 * (((a :: b :: c :: d :: rest).length + 3) / 4) =
        4 * ((rest.length + 3) / 4) + 4 := by
      simp only [List.length_cons]
      omega
    rw [ofByteList_cons, List.flatMap_cons, bytes_mk, bytes_ofByteList rest, more]
    simp only [fitBytes_cons, List.cons_append, List.nil_append]

theorem length_bytes (body : List Instruction) :
    (body.flatMap bytes).length = 4 * body.length := by
  induction body with
  | nil => rfl
  | cons i body ih =>
    rw [List.flatMap_cons, List.length_append, ih, List.length_cons, bytes_eq]
    simp only [List.length_cons, List.length_nil]
    omega

/-- a body cut behind so many bytes; a partial last instruction is filled up with zeros -/
def cutBody (n : Nat) (body : List Instruction) : List Instruction :=
  body.take (n / 4) ++ if n % 4 = 0 then [] else (body[n / 4]?.map (·.cut (n % 4))).toList

theorem cutBody_cons (n : Nat) (i : Instruction) (body : List Instruction) :
    cutBody (n + 4) (i :: body) = i :: cutBody n body := by
  have whole : (n + 4) / 4 = n / 4 + 1 := by omega
  have part : (n + 4) % 4 = n % 4 := by omega
  rw [cutBody, cutBody, whole, part, List.take_succ_cons, List.getElem?_cons_succ]
  rfl

theorem cutBody_of_le {n : Nat} {body : List Instruction} (whole : 4 * body.length ≤ n) :
    cutBody n body = body := by
  have all : body.length ≤ n / 4 := by omega
  rw [cutBody, List.take_of_length_le all, List.getElem?_eq_none all]
  simp

theorem cutBody_of_lt {n : Nat} (few : n < 4) (i : Instruction) (body : List Instruction) :
    cutBody n (i :: body) = if n = 0 then [] else [i.cut n] := by
  have none : n / 4 = 0 := by omega
  have part : n % 4 = n := by omega
  simp [cutBody, none, part]

theorem ofByteList_of_lt {n : Nat} (few : n < 4) (i : Instruction) (rest : List UInt8) :
    ofByteList (fitBytes n (i.bytes ++ rest)) = if n = 0 then [] else [i.cut n] := by
  have bytes : i.bytes ++ rest =
      i.opcode.low :: i.opcode.high :: i.operand.low :: i.operand.high :: rest := rfl
  obtain ⟨one, two, three⟩ := ofByteList_rest i.opcode.low i.opcode.high i.operand.low
  rw [Word.ofBytes_low_high] at two three
  rw [bytes]
  match n with
  | 0 => rw [fitBytes_zero]; rfl
  | 1 => simp only [fitBytes_cons, fitBytes_zero, one]; rfl
  | 2 => simp only [fitBytes_cons, fitBytes_zero, two]; rfl
  | 3 => simp only [fitBytes_cons, fitBytes_zero, three]; rfl

theorem ofByteList_fit (body : List Instruction) (n : Nat) :
    ofByteList (fitBytes n (body.flatMap bytes)) =
      cutBody n body ++ List.replicate ((n - 4 * body.length + 3) / 4) ⟨0, 0⟩ := by
  induction body generalizing n with
  | nil =>
    rw [List.flatMap_nil, fitBytes_nil, ofByteList_zeros]
    simp [cutBody]
  | cons i body ih =>
    rw [List.flatMap_cons]
    by_cases few : n < 4
    · have none : (n - 4 * (i :: body).length + 3) / 4 = 0 := by
        rw [List.length_cons]
        omega
      rw [ofByteList_of_lt few, cutBody_of_lt few, none, List.replicate_zero, List.append_nil]
    · obtain ⟨n, rfl⟩ : ∃ k, n = k + 4 := ⟨n - 4, by omega⟩
      have left : n + 4 - 4 * (i :: body).length = n - 4 * body.length := by
        rw [List.length_cons]
        omega
      rw [cutBody_cons, left, bytes_eq]
      simp only [List.cons_append, List.nil_append, fitBytes_cons]
      rw [ofByteList_cons, ih, Word.ofBytes_low_high, Word.ofBytes_low_high]

end Instruction

namespace Image

theorem bytes_eq (image : Image) :
    image.bytes = marker.low :: marker.high :: image.entry.low :: image.entry.high ::
      image.body.flatMap Instruction.bytes := rfl

theorem length_bytes (image : Image) : image.bytes.length = 4 * image.body.length + 4 := by
  rw [bytes_eq]
  simp only [List.length_cons, Instruction.length_bytes]

theorem ofBytes_header (entry : Word) (rest : List UInt8) :
    ofBytes (marker.low :: marker.high :: entry.low :: entry.high :: rest) =
      .ok ⟨entry, Instruction.ofByteList rest⟩ := by
  rw [ofBytes, Word.ofBytes_low_high, Word.ofBytes_low_high]
  exact if_pos rfl

theorem ofBytes_bytes (image : Image) : ofBytes image.bytes = .ok image := by
  rw [bytes_eq, ofBytes_header, Instruction.ofByteList_bytes]

theorem ofBytes_short {bs : List UInt8} (short : bs.length < 4) :
    ofBytes bs = .error (.truncated bs.length) := by
  match bs with
  | [] | [_] | [_, _] | [_, _, _] => rfl

theorem ofBytes_cons (m₀ m₁ e₀ e₁ : UInt8) (rest : List UInt8) :
    ofBytes (m₀ :: m₁ :: e₀ :: e₁ :: rest) =
      if Word.ofBytes m₀ m₁ = marker then
        .ok ⟨Word.ofBytes e₀ e₁, Instruction.ofByteList rest⟩
      else .error (.badMarker (Word.ofBytes m₀ m₁)) := rfl

/-- writing what was read fills up the last instruction -/
theorem bytes_of_ofBytes {bs : List UInt8} {image : Image} (read : ofBytes bs = .ok image) :
    image.bytes = fitBytes (4 * ((bs.length + 3) / 4)) bs := by
  match bs with
  | [] | [_] | [_, _] | [_, _, _] => cases read
  | m₀ :: m₁ :: e₀ :: e₁ :: rest =>
    rw [ofBytes_cons] at read
    split at read
    · next known =>
      cases read
      have more : 4 * (((m₀ :: m₁ :: e₀ :: e₁ :: rest).length + 3) / 4) =
          4 * ((rest.length + 3) / 4) + 4 := by
        simp only [List.length_cons]
        omega
      rw [bytes_eq, ← known, more, Instruction.bytes_ofByteList]
      simp only [fitBytes_cons, Word.low_ofBytes, Word.high_ofBytes]
    · cases read

theorem sizedBytes_eq (image : Image) (n : Nat) :
    image.sizedBytes (n + 4) = marker.low :: marker.high :: image.entry.low :: image.entry.high ::
      fitBytes n (image.body.flatMap Instruction.bytes) := by
  rw [sizedBytes, bytes_eq]
  simp only [fitBytes_cons]

theorem ofBytes_sizedBytes (image : Image) (n : Nat) :
    ofBytes (image.sizedBytes (n + 4)) = .ok ⟨image.entry, Instruction.cutBody n image.body ++
      List.replicate ((n - 4 * image.body.length + 3) / 4) ⟨0, 0⟩⟩ := by
  rw [sizedBytes_eq, ofBytes_header, Instruction.ofByteList_fit]

theorem exists_file (image : Image) {size : Nat} (header : 4 ≤ size) :
    ∃ file, ofBytes (image.sizedBytes size) = .ok file ∧ file.entry = image.entry := by
  obtain ⟨n, rfl⟩ : ∃ n, size = n + 4 := ⟨size - 4, by omega⟩
  exact ⟨_, ofBytes_sizedBytes image n, rfl⟩

theorem trimmed_append_zeros (entry : Word) (body : List Instruction) (n : Nat) :
    trimmed ⟨entry, body ++ List.replicate n ⟨0, 0⟩⟩ = trimmed ⟨entry, body⟩ := by
  have zeros : ∀ i ∈ List.replicate n (⟨0, 0⟩ : Instruction), (i == {}) = true := by
    intro i mem
    rw [List.eq_of_mem_replicate mem]
    rfl
  rw [trimmed, trimmed, List.reverse_append, List.reverse_replicate,
    List.dropWhile_append_of_pos zeros]

/-- reading and writing are inverse over all images and over all bytes that have a header; a file
that is longer than its image reads as the image but for zeros at the end, and a shorter one as
the image cut where the file ends -/
theorem bytes_codec :
    (∀ image : Image, ofBytes image.bytes = .ok image) ∧
    (∀ bs : List UInt8, bs.length < 4 → ofBytes bs = .error (.truncated bs.length)) ∧
    (∀ (m₀ m₁ : UInt8) (rest : List UInt8), 2 ≤ rest.length →
      let bs := m₀ :: m₁ :: rest
      let found := Word.ofBytes m₀ m₁
      (found.toNat ≠ 148 → ofBytes bs = .error (.badMarker found)) ∧
      (found.toNat = 148 → ∃ image, ofBytes bs = .ok image ∧
        image.bytes = fitBytes (4 * ((bs.length + 3) / 4)) bs)) ∧
    ∀ (image : Image) (size : Nat), 4 ≤ size →
      ∃ read, ofBytes (image.sizedBytes size) = .ok read ∧ read.entry = image.entry ∧
        (image.bytes.length ≤ size → read.trimmed = image.trimmed) ∧
        (size < image.bytes.length → read.body = Instruction.cutBody (size - 4) image.body) := by
  refine ⟨ofBytes_bytes, fun bs => ofBytes_short, ?_, ?_⟩
  · intro m₀ m₁ rest header
    obtain ⟨e₀, e₁, rest, rfl⟩ : ∃ e₀ e₁ tail, rest = e₀ :: e₁ :: tail := by
      match rest, header with
      | e₀ :: e₁ :: tail, _ => exact ⟨e₀, e₁, tail, rfl⟩
    intro bs found
    have same : found.toNat = 148 ↔ found = marker := by
      rw [← BitVec.toNat_inj]
      rfl
    have decides := ofBytes_cons m₀ m₁ e₀ e₁ rest
    refine ⟨fun other => ?_, fun known => ?_⟩
    · exact decides.trans (if_neg fun known => other (same.2 known))
    · have read := decides.trans (if_pos (same.1 known))
      exact ⟨_, read, bytes_of_ofBytes read⟩
  · intro image size header
    obtain ⟨n, rfl⟩ : ∃ n, size = n + 4 := ⟨size - 4, by omega⟩
    refine ⟨_, ofBytes_sizedBytes image n, rfl, fun whole => ?_, fun short => ?_⟩
    · rw [length_bytes] at whole
      rw [trimmed_append_zeros, Instruction.cutBody_of_le (by omega)]
    · rw [length_bytes] at short
      have none : (n - 4 * image.body.length + 3) / 4 = 0 := by omega
      rw [none, List.replicate_zero, List.append_nil, Nat.add_sub_cancel]

/-- files cut within an instruction and longer than the image, a foreign marker, and a lone byte
behind a header -/
theorem bytes_codec_partial :
    let image : Image := ⟨6, [⟨25, 0xbeef⟩, ⟨0x1234, 0x0907⟩, ⟨0, 0⟩]⟩
    ofBytes [148, 0, 6] = .error (.truncated 3) ∧ ofBytes [148, 1, 0, 0] = .error (.badMarker 404) ∧
      (∃ read, ofBytes [148, 0, 6, 0, 25] = .ok read ∧ read.bytes = [148, 0, 6, 0, 25, 0, 0, 0]) ∧
      (∃ read, ofBytes (image.sizedBytes 11) = .ok read ∧
        read.body = [⟨25, 0xbeef⟩, ⟨0x1234, 7⟩]) ∧
      ∃ read, ofBytes (image.sizedBytes 18) = .ok read ∧
        read.trimmed = [⟨25, 0xbeef⟩, ⟨0x1234, 0x0907⟩] := by
  intro image
  obtain ⟨-, short, header, sized⟩ := bytes_codec
  obtain ⟨cut, cutRead, -, -, body⟩ := sized image 11 (by decide)
  obtain ⟨long, longRead, -, trimmed, -⟩ := sized image 18 (by decide)
  obtain ⟨read, done, bytes⟩ := (header 148 0 [6, 0, 25] (by decide)).2 (by decide)
  refine ⟨short _ (by decide), (header 148 1 [0, 0] (by decide)).1 (by decide),
    ⟨read, done, bytes⟩, ⟨cut, cutRead, body (by decide)⟩, ⟨long, longRead, trimmed (by decide)⟩⟩

end Image
end OneBus
