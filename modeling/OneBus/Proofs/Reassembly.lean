import OneBus.Proofs.Phrasing

/-!
Assembling a listing. The first pass reads the listed lines one after another; `Laid` says what it
has by then, and each instruction takes it one further, with the entry label in front where the
entry point is. The second pass then has the instructions again. An instruction that no mnemonic
goes by stops the first pass on its line.
-/

namespace OneBus

open Assembly Text

namespace Instruction

def line (i : Instruction) (address : Word) : String :=
  "    " ++ padRight 20 i.text ++ " # " ++ zeroDecimal 4 address.toNat ++ ": "
    ++ decimal i.opcode.toInt ++ " " ++ decimal i.operand.toNat

theorem plain_tokens (i : Instruction) :
    (∀ w ∈ i.tokens, w ≠ []) ∧ ∀ w ∈ i.tokens, ∀ c ∈ w, isPlain c := by
  have keyword := i.toList_keyword
  constructor <;> intro w h <;> obtain rfl | h := List.mem_cons.1 h
  · exact keyword.1
  · obtain ⟨e, he, rfl⟩ := List.mem_map.1 h
    exact (i.reads_entries e he).some
  · exact fun c hc => (keyword.2 c hc).1
  · obtain ⟨e, he, rfl⟩ := List.mem_map.1 h
    exact (i.reads_entries e he).plain

theorem newline_not_mem_decimal (n : Int) : '\n' ∉ (decimal n).toList := by
  intro h
  obtain minus | ⟨d, below, digit⟩ := mem_decimal h
  · contradiction
  · have all : ∀ d < 10, '\n' ≠ d.digitChar := by decide
    exact all d below digit

theorem newline_not_mem_zeroDecimal (n : Nat) : '\n' ∉ (zeroDecimal 4 n).toList := by
  have padded : (zeroDecimal 4 n).toList =
      List.replicate (4 - n.repr.length) '0' ++ (decimal n).toList := by
    simp [zeroDecimal, zeros, fill, decimal]
  rw [padded, List.mem_append, List.mem_replicate]
  rintro (⟨-, zero⟩ | h)
  · exact absurd zero (by decide)
  · exact newline_not_mem_decimal n h

theorem toList_line (i : Instruction) (address : Word) :
    ∃ gap comment, gap ≠ [] ∧ (∀ c ∈ gap, c = ' ') ∧ '\n' ∉ comment ∧
      (i.line address).toList =
        "    ".toList ++ phrase i.keyword.toList (i.entries.map (·.1.toList)) ++ gap ++
          '#' :: comment := by
  refine ⟨List.replicate (20 - i.text.length) ' ' ++ [' '], [' '] ++ ((zeroDecimal 4
    address.toNat).toList ++ (": ".toList ++ ((decimal i.opcode.toInt).toList ++ (" ".toList ++
    (decimal i.operand.toNat).toList)))), by simp, ?_, ?_, ?_⟩
  · intro c h
    obtain h | h := List.mem_append.1 h
    · exact (List.mem_replicate.1 h).2
    · exact List.mem_singleton.1 h
  · simp only [List.mem_append, newline_not_mem_zeroDecimal, newline_not_mem_decimal, false_or,
      or_false]
    decide
  · simp [line, padRight, fill, toList_text]

theorem tokensOf_line (i : Instruction) (address : Word) :
    tokensOf (i.line address).toList = i.tokens := by
  obtain ⟨gap, comment, apart, blank, -, chars⟩ := i.toList_line address
  obtain ⟨some, plain⟩ := i.plain_tokens
  rw [chars]
  exact tokensOf_phrase some plain (by simp) apart blank comment

theorem newline_not_mem_line (i : Instruction) (address : Word) :
    '\n' ∉ (i.line address).toList := by
  obtain ⟨gap, comment, -, blank, single, chars⟩ := i.toList_line address
  rw [chars]
  simp only [List.mem_append, List.mem_cons, not_or]
  refine ⟨⟨⟨by decide, fun h => ?_⟩, fun h => absurd (blank _ h) (by decide)⟩, by decide, single⟩
  obtain plain | eq | eq := mem_phrase i.plain_tokens.2 h
  · exact absurd plain (by decide)
  · contradiction
  · contradiction

end Instruction

namespace Image

/-- the entry label, where the entry point is -/
def labels (image : Image) (index : Nat) : List String :=
  if addressOf index = image.entry then ["::main"] else []

theorem listed_eq (image : Image) (i : Instruction) (index : Nat) :
    image.listed i index = image.labels index ++ [i.line (addressOf index)] := by
  unfold labels
  by_cases here : addressOf index = image.entry
  · rw [if_pos here]
    exact if_pos here
  · rw [if_neg here]
    exact if_neg here

/-- the listed lines of instructions that stand at `first` and behind it -/
def listedFrom (image : Image) (first : Nat) (is : List Instruction) : List String :=
  (is.zipIdx first).flatMap fun (i, index) => image.listed i index

theorem listedFrom_cons (image : Image) (first : Nat) (i : Instruction) (is : List Instruction) :
    image.listedFrom first (i :: is) = image.listed i first ++ image.listedFrom (first + 1) is :=
  rfl

theorem listedFrom_append (image : Image) (first : Nat) (is js : List Instruction) :
    image.listedFrom first (is ++ js) =
      image.listedFrom first is ++ image.listedFrom (first + is.length) js := by
  rw [listedFrom, List.zipIdx_append, List.flatMap_append]
  rfl

def heading (image : Image) : List String :=
  ["# microbus disassembly", "# entry point " ++ decimal image.entry.toNat, ""]

theorem listingLines_eq (image : Image) :
    image.listingLines = image.heading ++ image.listedFrom 0 image.trimmed := rfl

theorem addressOf_inj {i j : Nat} (hi : i < 0x8000) (hj : j < 0x8000)
    (h : addressOf i = addressOf j) : i = j := by
  have nat := congrArg BitVec.toNat h
  simp only [addressOf, bodyStart, unitsPerInstruction, BitVec.toNat_add, BitVec.toNat_ofNat] at nat
  omega

theorem addressOf_succ (i : Nat) : addressOf (i + 1) = addressOf i + 2 := by
  apply BitVec.eq_of_toNat_eq
  have two : (2 : Word).toNat = 2 := rfl
  simp only [addressOf, bodyStart, unitsPerInstruction, BitVec.toNat_add, BitVec.toNat_ofNat, two]
  omega

/-- the entry point is at one of so many instructions -/
abbrev Entered (image : Image) (count : Nat) : Prop := ∃ i < count, addressOf i = image.entry

/-- the line of the listing, counted from 1, that an instruction stands on -/
def lineOf (image : Image) (index : Nat) : Nat :=
  4 + index + if image.Entered (index + 1) then 1 else 0

theorem entered_succ (image : Image) (count : Nat) :
    image.Entered (count + 1) ↔ image.Entered count ∨ addressOf count = image.entry := by
  constructor
  · rintro ⟨i, below, here⟩
    obtain rfl | below := Nat.eq_or_lt_of_le (Nat.lt_succ_iff.1 below)
    · exact .inr here
    · exact .inl ⟨i, below, here⟩
  · rintro (⟨i, below, here⟩ | here)
    · exact ⟨i, Nat.lt_succ_of_lt below, here⟩
    · exact ⟨count, Nat.lt_succ_self count, here⟩

theorem not_entered {image : Image} {count : Nat} (small : count ≤ 0x7fff)
    (here : addressOf count = image.entry) : ¬ image.Entered count := by
  rintro ⟨i, below, before⟩
  exact absurd (addressOf_inj (by omega) (by omega) (before.trans here.symm)) (by omega)

end Image

/-- what the first pass has when it comes to line `number`, behind so many listed instructions -/
structure Laid (image : Image) (done : List Instruction) (number : Nat) (l : Layout) : Prop where
  number : number = 4 + done.length + if image.Entered done.length then 1 else 0
  next : l.next = Image.addressOf done.length
  symbols : l.symbols =
    if image.Entered done.length then [(Program.entryLabel, image.entry)] else []
  body : ∀ symbols, (l.statements.toList.mapM fun s =>
    (s.encode symbols).mapError (AssemblyError.mk s.line)) = .ok (done.map ([·.normal]))

namespace Laid

variable {image : Image} {done : List Instruction} {number : Nat} {l : Layout}

theorem addLine_label [Build] (l : Layout) (number : Nat) (fresh : l.symbols = []) :
    l.addLine ⟨number, tokensOf "::main".toList⟩ =
      .ok { l with symbols := [(Program.entryLabel, l.next)] } := by
  have item : (Line.mk number (tokensOf "::main".toList)).item = .ok (.label "main") := rfl
  obtain ⟨next, symbols, statements⟩ := l
  cases fresh
  rw [Layout.addLine, item]
  rfl

theorem addLine_statement [Build] (l : Layout) (number : Nat) {i : Instruction}
    {mnemonic : Mnemonic} (known : i.mnemonic? = some mnemonic) :
    l.addLine ⟨number, i.tokens⟩ =
      .ok { l with
        next := l.next + 2
        statements := l.statements.push (i.statement number known) } := by
  obtain ⟨op, -, named⟩ := Option.bind_eq_some_iff.1 known
  have size : (i.statement number known).words = 1 := by
    rw [Statement.words_eq, Instruction.mnemonic_statement known]
    exact Opcode.size_mnemonic named
  rw [Layout.addLine, i.item_tokens, dif_pos (Instruction.known_keyword known)]
  change (l.add (.statement (i.statement number known))).mapError _ = _
  rw [Layout.add, size]
  rfl

theorem addLine_unknown [Build] (l : Layout) (number : Nat) {i : Instruction}
    (unknown : i.mnemonic? = none) :
    l.addLine ⟨number, i.tokens⟩ = .error ⟨number, .unknownMnemonic i.keyword⟩ := by
  rw [Layout.addLine, i.item_tokens, dif_neg (by simp [i.wordCount?_keyword, unknown])]
  rfl

theorem body_push {statements : Array Statement}
    (body : ∀ symbols, (statements.toList.mapM fun s =>
      (s.encode symbols).mapError (AssemblyError.mk s.line)) = .ok (done.map ([·.normal])))
    (number : Nat) {i : Instruction} {mnemonic : Mnemonic} (known : i.mnemonic? = some mnemonic)
    (symbols : Symbols) :
    ((statements.push (i.statement number known)).toList.mapM fun s =>
      (s.encode symbols).mapError (AssemblyError.mk s.line)) =
        .ok ((done ++ [i]).map ([·.normal])) := by
  rw [Array.toList_push, List.mapM_append, body symbols, List.mapM_cons,
    Instruction.encode_statement known, List.map_append]
  rfl

theorem step_label [Build] (h : Laid image done number l) (small : done.length ≤ 0x7fff) :
    (numbered (image.labels done.length) number).foldlM Layout.addLine l =
        .ok { l with
          symbols := if image.Entered (done.length + 1) then [(Program.entryLabel, image.entry)]
            else [] } ∧
      number + (image.labels done.length).length = image.lineOf done.length := by
  unfold Image.lineOf
  have entered := image.entered_succ done.length
  unfold Image.labels
  by_cases here : Image.addressOf done.length = image.entry
  · have before := Image.not_entered small here
    have fresh : l.symbols = [] := by rw [h.symbols, if_neg before]
    have count : number = 4 + done.length := by
      rw [h.number, if_neg before, Nat.add_zero]
    rw [if_pos here, if_pos (entered.2 (.inr here)), if_pos (entered.2 (.inr here)), ← count]
    refine ⟨?_, rfl⟩
    change l.addLine ⟨number, tokensOf "::main".toList⟩ >>= pure = _
    rw [addLine_label l number fresh, h.next, here]
    rfl
  · have same : image.Entered (done.length + 1) ↔ image.Entered done.length :=
      entered.trans (or_iff_left here)
    rw [if_neg here]
    simp only [same]
    exact ⟨congrArg Except.ok (by rw [← h.symbols]), h.number⟩

theorem step [Build] (h : Laid image done number l) (small : done.length ≤ 0x7fff) {i : Instruction}
    {mnemonic : Mnemonic} (known : i.mnemonic? = some mnemonic) :
    ∃ l', (numbered (image.listed i done.length) number).foldlM Layout.addLine l = .ok l' ∧
      Laid image (done ++ [i]) (number + (image.listed i done.length).length) l' := by
  obtain ⟨label, count⟩ := h.step_label small
  rw [image.listed_eq, numbered_append, List.foldlM_append, label, List.length_append,
    ← Nat.add_assoc]
  generalize number + (image.labels done.length).length = n at count ⊢
  have line : numbered [i.line (Image.addressOf done.length)] n = [⟨n, i.tokens⟩] := by
    rw [← i.tokensOf_line]
    rfl
  have one : (done ++ [i]).length = done.length + 1 := List.length_append
  generalize symbols : (if image.Entered (done.length + 1) then _ else _) = entries at label ⊢
  refine ⟨⟨l.next + 2, entries, l.statements.push (i.statement n known)⟩, ?_, ?_, ?_, ?_,
    body_push h.body n known⟩
  · rw [line]
    change Layout.addLine _ ⟨n, i.tokens⟩ >>= pure = _
    rw [addLine_statement _ n known]
    rfl
  · rw [one, List.length_singleton, count, Image.lineOf]
    omega
  · rw [one, h.next, Image.addressOf_succ]
  · rw [one, ← symbols]

theorem run [Build] (h : Laid image done number l) (rest : List Instruction)
    (small : done.length + rest.length ≤ 0x8000) (named : ∀ i ∈ rest, i.Nameable) :
    ∃ l', (numbered (image.listedFrom done.length rest) number).foldlM Layout.addLine l = .ok l' ∧
      Laid image (done ++ rest) (number + (image.listedFrom done.length rest).length) l' := by
  induction rest generalizing done number l with
  | nil =>
    refine ⟨l, rfl, ?_⟩
    rw [List.append_nil]
    exact h
  | cons i rest ih =>
    rw [List.length_cons] at small
    obtain ⟨mnemonic, known⟩ := i.nameable_iff.1 (named i List.mem_cons_self)
    obtain ⟨l₁, first, laid⟩ := h.step (by omega) known
    have one : (done ++ [i]).length = done.length + 1 := List.length_append
    obtain ⟨l₂, rest, laid⟩ := ih laid (by omega) fun j hj => named j (List.mem_cons_of_mem _ hj)
    rw [one] at rest laid
    refine ⟨l₂, ?_, ?_⟩
    · rw [image.listedFrom_cons, numbered_append, List.foldlM_append, first]
      exact rest
    · rw [image.listedFrom_cons, List.length_append, ← Nat.add_assoc]
      rwa [List.append_assoc] at laid

theorem stuck [Build] (h : Laid image done number l) (small : done.length ≤ 0x7fff)
    {i : Instruction} (unnamed : ¬ i.Nameable) (rest : List String) :
    (numbered (image.listed i done.length ++ rest) number).foldlM Layout.addLine l =
      .error ⟨image.lineOf done.length, .unknownMnemonic i.keyword⟩ := by
  obtain ⟨label, count⟩ := h.step_label small
  have unknown : i.mnemonic? = none := by
    cases known : i.mnemonic? with
    | none => rfl
    | some mnemonic => exact absurd (i.nameable_iff.2 ⟨mnemonic, known⟩) unnamed
  rw [image.listed_eq, List.append_assoc, numbered_append, List.foldlM_append, label, count,
    List.singleton_append, numbered_cons, i.tokensOf_line]
  generalize numbered rest _ = below
  change List.foldlM Layout.addLine _ (⟨_, i.tokens⟩ :: below) = _
  rw [List.foldlM_cons, addLine_unknown _ _ unknown]
  rfl

theorem start [Build] (image : Image) :
    (numbered image.heading 1).foldlM Layout.addLine {} = .ok {} ∧ Laid image [] 4 {} := by
  have first : tokensOf "# microbus disassembly".toList = [] := tokensOf_comment _
  have second : tokensOf ("# entry point " ++ decimal image.entry.toNat).toList = [] := by
    rw [String.toList_append]
    exact tokensOf_comment _
  have third : tokensOf "".toList = [] := rfl
  constructor
  · rw [Image.heading, numbered_cons, numbered_cons, numbered_cons, first, second, third]
    rfl
  · have none : ¬ image.Entered 0 := fun ⟨_, below, _⟩ => absurd below (Nat.not_lt_zero _)
    refine ⟨?_, rfl, ?_, fun _ => rfl⟩
    · rw [List.length_nil, if_neg none]
    · rw [List.length_nil, if_neg none]

end Laid

namespace Image

theorem newline_not_mem_listingLines (image : Image) :
    ∀ l ∈ image.listingLines, '\n' ∉ l.toList := by
  intro l h
  rw [listingLines_eq, List.mem_append] at h
  obtain h | h := h
  · simp only [heading, List.mem_cons, List.not_mem_nil, or_false] at h
    obtain rfl | rfl | rfl := h
    · decide
    · rw [String.toList_append, List.mem_append]
      exact not_or.2 ⟨by decide, Instruction.newline_not_mem_decimal _⟩
    · decide
  · obtain ⟨⟨i, index⟩, -, h⟩ := List.mem_flatMap.1 h
    dsimp only at h
    rw [listed_eq, List.mem_append, List.mem_singleton, labels] at h
    obtain h | rfl := h
    · split at h
      · rw [List.mem_singleton.1 h]
        decide
      · contradiction
    · exact i.newline_not_mem_line _

theorem linesOf_listing (image : Image) :
    linesOf image.listing =
      numbered image.heading 1 ++ numbered (image.listedFrom 0 image.trimmed ++ [""]) 4 := by
  rw [listing, linesOf_join image.newline_not_mem_listingLines, listingLines_eq,
    List.append_assoc, numbered_append]
  rfl

theorem length_trimmed (image : Image) : image.trimmed.length ≤ image.body.length := by
  rw [trimmed, List.length_reverse]
  have shorter := (List.dropWhile_sublist (· == {}) (l := image.body.reverse)).length_le
  rwa [List.length_reverse] at shorter

end Image

theorem ofLines_listing [Build] (image : Image) :
    Layout.ofLines (linesOf image.listing) =
      (numbered (image.listedFrom 0 image.trimmed ++ [""]) 4).foldlM Layout.addLine {} := by
  rw [Layout.ofLines, image.linesOf_listing, List.foldlM_append, (Laid.start image).1]
  rfl

/-- a listing assembles to the image without what is not listed -/
theorem assemble_nameable [Build] {image : Image} (small : image.trimmed.length ≤ 0x8000)
    (named : ∀ i ∈ image.trimmed, i.Nameable) :
    assemble image.listing =
      .ok ⟨if image.Entered image.trimmed.length then image.entry else 0,
        image.trimmed.map Instruction.normal⟩ := by
  obtain ⟨l, lines, laid⟩ := (Laid.start image).2.run image.trimmed (by simpa using small) named
  rw [List.nil_append] at laid
  rw [List.length_nil] at lines
  have first : Layout.ofLines (linesOf image.listing) = .ok l := by
    rw [ofLines_listing, numbered_append, List.foldlM_append, lines]
    rfl
  have second : Program.ofLayout l = .ok ⟨l.symbols, image.trimmed.map Instruction.normal⟩ := by
    have flat :
        (image.trimmed.map ([·.normal])).flatten = image.trimmed.map Instruction.normal := by
      rw [← List.flatMap_def, ← List.map_eq_flatMap]
    rw [Program.ofLayout, laid.body l.symbols, ← flat]
    rfl
  have source : Program.ofSource image.listing =
      .ok ⟨l.symbols, image.trimmed.map Instruction.normal⟩ := by
    rw [Program.ofSource, first]
    exact second
  have entry : (l.symbols.lookup Program.entryLabel).getD 0 =
      if image.Entered image.trimmed.length then image.entry else 0 := by
    rw [laid.symbols]
    split <;> rfl
  rw [assemble, source, ← entry]
  rfl

/-- a listing does not assemble beyond an instruction that no source can name -/
theorem assemble_unnameable [Build] {image : Image} {before after : List Instruction}
    {i : Instruction} (small : image.trimmed.length ≤ 0x8000)
    (split : image.trimmed = before ++ i :: after) (named : ∀ j ∈ before, j.Nameable)
    (unnamed : ¬ i.Nameable) :
    assemble image.listing =
        .error ⟨image.lineOf before.length, .unknownMnemonic i.keyword⟩ ∧
      image.listingLines[image.lineOf before.length - 1]? =
        some (i.line (Image.addressOf before.length)) := by
  rw [split, List.length_append, List.length_cons] at small
  have room : ([] : List Instruction).length + before.length ≤ 0x8000 := by
    rw [List.length_nil]
    omega
  obtain ⟨l, lines, laid⟩ := (Laid.start image).2.run before room named
  rw [List.nil_append] at laid
  rw [List.length_nil] at lines laid
  have short : before.length ≤ 0x7fff := by omega
  constructor
  · have first : Layout.ofLines (linesOf image.listing) =
        .error ⟨image.lineOf before.length, .unknownMnemonic i.keyword⟩ := by
      rw [ofLines_listing, split, Image.listedFrom_append, Image.listedFrom_cons, Nat.zero_add,
        List.append_assoc, List.append_assoc, numbered_append, List.foldlM_append, lines]
      exact laid.stuck short unnamed _
    rw [assemble, Program.ofSource, first]
    rfl
  · have count := (laid.step_label short).2
    let above := image.heading ++ image.listedFrom 0 before ++ image.labels before.length
    have lines : image.listingLines = above ++
        i.line (Image.addressOf before.length) :: image.listedFrom (before.length + 1) after := by
      rw [Image.listingLines_eq, split, Image.listedFrom_append, Image.listedFrom_cons,
        Image.listed_eq, Nat.zero_add]
      simp [above]
    have place : image.lineOf before.length - 1 = above.length := by
      rw [← count]
      simp [above, Image.heading]
      omega
    rw [lines, place, List.getElem?_append_right (Nat.le_refl _), Nat.sub_self]
    rfl

/-- assembling a listing gives the image in its normal form, or the first instruction that no source
can name -/
theorem assemble_listing [Build] (image : Image) (small : image.body.length ≤ 32766) :
    ((∀ i ∈ image.trimmed, i.Nameable) →
      assemble image.listing =
        .ok ⟨if ∃ i < image.trimmed.length, Image.addressOf i = image.entry then image.entry else 0,
          image.trimmed.map Instruction.normal⟩) ∧
      ∀ before i after, image.trimmed = before ++ i :: after → (∀ j ∈ before, j.Nameable) →
        ¬ i.Nameable →
          assemble image.listing =
            .error ⟨image.lineOf before.length, .unknownMnemonic i.keyword⟩ ∧
          image.listingLines[image.lineOf before.length - 1]? =
            some (i.line (Image.addressOf before.length)) := by
  have room : image.trimmed.length ≤ 0x8000 := by
    have shorter := image.length_trimmed
    omega
  exact ⟨assemble_nameable room, fun _ _ _ split named unnamed =>
    assemble_unnameable room split named unnamed⟩

/-- a load and a halt, and a comparison at the entry point -/
theorem assemble_load_compare :
    let image : Image := ⟨4, [.of (.load .a) 31, .of .halt 7]⟩
    let other : Image := ⟨4, [.of .halt, .of .compare 1]⟩
    image.body.length ≤ 32766 ∧ (∀ i ∈ image.trimmed, i.Nameable) ∧
      assemble image.listing = .ok ⟨4, [.of (.load .a) 31, .of .halt]⟩ ∧
      other.body.length ≤ 32766 ∧ ¬ (Instruction.of .compare 1).Nameable ∧
      assemble other.listing = .error ⟨6, .unknownMnemonic "compare"⟩ := by
  intro image other
  have halts (x : Word) : (Instruction.of .halt x).Nameable := ⟨.halt, rfl, by decide, by decide⟩
  have loads : (Instruction.of (.load .a) 31).Nameable := ⟨.load .a, rfl, by decide, by decide⟩
  have compares : ¬ (Instruction.of .compare 1).Nameable := by
    rintro ⟨op, decoded, -, other⟩
    exact other (Option.some.inj decoded).symm
  have named : ∀ i ∈ image.trimmed, i.Nameable := by
    have trimmed : image.trimmed = [.of (.load .a) 31, .of .halt 7] := by decide
    rw [trimmed, List.forall_mem_cons, List.forall_mem_singleton]
    exact ⟨loads, halts 7⟩
  have first : ∀ j ∈ [Instruction.of .halt], j.Nameable :=
    List.forall_mem_singleton.2 (halts 0)
  refine ⟨by decide, named, ((assemble_listing image (by decide)).1 named).trans ?_, by decide,
    compares, ((assemble_listing other (by decide)).2 [.of .halt] (.of .compare 1) [] (by decide)
      first compares).1.trans ?_⟩
  · rfl
  · rfl

end OneBus
