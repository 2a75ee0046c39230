import OneBus.Assembly.Source

/-!
Text that was put together comes apart again: lines that were joined, and the tokens of a line that
was written with separators between them and a comment behind.
-/

namespace OneBus.Text

variable {p : Char → Bool}

theorem cut_cons (p : Char → Bool) (c : Char) (cs : List Char) :
    cut p (c :: cs) = cutStep p c (cut p cs) := rfl

theorem cut_ne_nil (p : Char → Bool) (cs : List Char) : cut p cs ≠ [] := by
  cases cs with
  | nil => exact List.cons_ne_nil _ _
  | cons c cs =>
    rw [cut_cons]
    unfold cutStep
    split
    · exact List.cons_ne_nil _ _
    · split <;> exact List.cons_ne_nil _ _

theorem cut_clean {w : List Char} (clean : ∀ c ∈ w, p c = false) : cut p w = [w] := by
  induction w with
  | nil => rfl
  | cons c w ih =>
    rw [cut_cons, ih fun c h => clean c (List.mem_cons_of_mem _ h)]
    simp [cutStep, clean c List.mem_cons_self]

theorem cut_separated {s : Char} (ends : p s = true) (front back : List Char) :
    cut p (front ++ s :: back) = cut p front ++ cut p back := by
  induction front with
  | nil => simp [cut, cutStep, ends]
  | cons c front ih =>
    rw [List.cons_append, cut_cons, ih, cut_cons]
    obtain ⟨piece, pieces, some⟩ := List.exists_cons_of_ne_nil (cut_ne_nil p front)
    rw [some]
    unfold cutStep
    split <;> rfl

theorem cut_append {w : List Char} (clean : ∀ c ∈ w, p c = false) {s : Char} (ends : p s = true)
    (rest : List Char) : cut p (w ++ s :: rest) = w :: cut p rest := by
  rw [cut_separated ends, cut_clean clean, List.singleton_append]

theorem fields_gap {gap : List Char} (separates : ∀ c ∈ gap, p c = true) (rest : List Char) :
    fields p (gap ++ rest) = fields p rest := by
  induction gap with
  | nil => rfl
  | cons s gap ih =>
    have first := cut_append (w := []) (by simp) (separates s List.mem_cons_self) (gap ++ rest)
    rw [List.nil_append] at first
    rw [List.cons_append, fields, first]
    exact ih fun c h => separates c (List.mem_cons_of_mem _ h)

theorem fields_word {w gap : List Char} (some : w ≠ []) (clean : ∀ c ∈ w, p c = false)
    (apart : gap ≠ []) (separates : ∀ c ∈ gap, p c = true) (rest : List Char) :
    fields p (w ++ (gap ++ rest)) = w :: fields p rest := by
  obtain ⟨s, gap, rfl⟩ := List.exists_cons_of_ne_nil apart
  rw [List.cons_append, fields, cut_append clean (separates s List.mem_cons_self),
    List.filter_cons_of_pos (by simpa using some)]
  congr 1
  exact fields_gap (fun c h => separates c (List.mem_cons_of_mem _ h)) rest

theorem cut_lines {ls : List (List Char)} (single : ∀ l ∈ ls, ∀ c ∈ l, p c = false) {e : Char}
    (ends : p e = true) : cut p (ls.flatMap (· ++ [e])) = ls ++ [[]] := by
  induction ls with
  | nil => rfl
  | cons l ls ih =>
    rw [List.flatMap_cons, List.append_assoc, List.singleton_append,
      cut_append (single l List.mem_cons_self) ends,
      ih fun l h => single l (List.mem_cons_of_mem _ h), List.cons_append]

end OneBus.Text

namespace OneBus.Assembly

open Text

def numbered (ls : List String) (first : Nat) : List Line :=
  (ls.zipIdx first).map fun (l, i) => ⟨i, tokensOf l.toList⟩

theorem numbered_cons (l : String) (ls : List String) (first : Nat) :
    numbered (l :: ls) first = ⟨first, tokensOf l.toList⟩ :: numbered ls (first + 1) := rfl

theorem numbered_append (ls rest : List String) (first : Nat) :
    numbered (ls ++ rest) first = numbered ls first ++ numbered rest (first + ls.length) := by
  rw [numbered, List.zipIdx_append, List.map_append]
  rfl

theorem clean_of_single {cs : List Char} (single : '\n' ∉ cs) : ∀ c ∈ cs, (c == '\n') = false := by
  intro c mem
  rw [beq_eq_false_iff_ne]
  rintro rfl
  exact single mem

/-- a text of whole lines has an empty one behind them -/
theorem linesOf_join {ls : List String} (single : ∀ l ∈ ls, '\n' ∉ l.toList) :
    linesOf (String.join (ls.map (· ++ "\n"))) = numbered (ls ++ [""]) 1 := by
  have text : (String.join (ls.map (· ++ "\n"))).toList =
      (ls.map String.toList).flatMap (· ++ ['\n']) := by
    simp [String.toList_join, List.flatMap_map]
  have pieces : cut (· == '\n') ((ls.map String.toList).flatMap (· ++ ['\n'])) =
      (ls ++ [""]).map String.toList := by
    rw [cut_lines ?_ rfl, List.map_append]
    · rfl
    · simp only [List.mem_map]
      rintro _ ⟨l, h, rfl⟩
      exact clean_of_single (single l h)
  rw [linesOf, text, pieces, List.zipIdx_map, List.map_map]
  rfl

/-- a token can be written with these -/
def isPlain (c : Char) : Bool := !isSeparator c && c != '#'

theorem isPlain_iff {c : Char} : isPlain c ↔ isSeparator c = false ∧ c ≠ '#' := by
  simp [isPlain]

/-- a keyword, a blank, and operands with commas between them -/
def phrase (keyword : List Char) : List (List Char) → List Char
  | [] => keyword
  | t :: ts => keyword ++ ([' '] ++ (t ++ ts.flatMap ([',', ' '] ++ ·)))

theorem tokensOf_comment (comment : List Char) : tokensOf ('#' :: comment) = [] := by
  rw [tokensOf, withoutComment, List.takeWhile_cons_of_neg (by decide)]
  rfl

theorem fields_list {t : List Char} {ts : List (List Char)}
    (some : ∀ w ∈ t :: ts, w ≠ []) (plain : ∀ w ∈ t :: ts, ∀ c ∈ w, isPlain c)
    {gap : List Char} (apart : gap ≠ []) (separates : ∀ c ∈ gap, isSeparator c = true) :
    fields isSeparator (t ++ ts.flatMap ([',', ' '] ++ ·) ++ gap) = t :: ts := by
  have clean (c : Char) (h : c ∈ t) : isSeparator c = false :=
    (isPlain_iff.1 (plain t List.mem_cons_self c h)).1
  induction ts generalizing t with
  | nil =>
    have last := fields_word (some t List.mem_cons_self) clean apart separates []
    rw [List.append_nil] at last
    rw [List.flatMap_nil, List.append_nil, last]
    rfl
  | cons u ts ih =>
    have comma : ∀ c ∈ [',', ' '], isSeparator c = true := List.all_eq_true.1 (by decide)
    have next := fields_word (some t List.mem_cons_self) clean (by decide) comma
      (u ++ ts.flatMap ([',', ' '] ++ ·) ++ gap)
    rw [ih (fun w h => some w (List.mem_cons_of_mem _ h))
      (fun w h => plain w (List.mem_cons_of_mem _ h))
      (fun c h => (isPlain_iff.1 (plain u (by simp) c h)).1)] at next
    rw [← next]
    simp

theorem mem_phrase {keyword : List Char} {ts : List (List Char)}
    (plain : ∀ w ∈ keyword :: ts, ∀ c ∈ w, isPlain c) {c : Char} (h : c ∈ phrase keyword ts) :
    isPlain c ∨ c = ' ' ∨ c = ',' := by
  cases ts with
  | nil => exact .inl (plain keyword List.mem_cons_self c h)
  | cons t ts =>
    simp only [phrase, List.mem_append, List.mem_flatMap, List.mem_cons, List.not_mem_nil,
      or_false] at h
    obtain first | blank | next | ⟨w, hw, (comma | blank) | rest⟩ := h
    · exact .inl (plain keyword List.mem_cons_self c first)
    · exact .inr (.inl blank)
    · exact .inl (plain t (by simp) c next)
    · exact .inr (.inr comma)
    · exact .inr (.inl blank)
    · exact .inl (plain w (by simp [hw]) c rest)

theorem tokensOf_phrase {keyword : List Char} {ts : List (List Char)}
    (some : ∀ w ∈ keyword :: ts, w ≠ []) (plain : ∀ w ∈ keyword :: ts, ∀ c ∈ w, isPlain c)
    {indent gap : List Char} (blank : ∀ c ∈ indent, c = ' ') (apart : gap ≠ [])
    (blank' : ∀ c ∈ gap, c = ' ') (comment : List Char) :
    tokensOf (indent ++ phrase keyword ts ++ gap ++ '#' :: comment) = keyword :: ts := by
  have written : ∀ c ∈ indent ++ phrase keyword ts ++ gap, (c != '#') = true := by
    intro c h
    rw [List.mem_append, List.mem_append] at h
    rw [bne_iff_ne]
    obtain (h | h) | h := h
    · rw [blank c h]; decide
    · obtain plain | rfl | rfl := mem_phrase plain h
      · exact (isPlain_iff.1 plain).2
      · decide
      · decide
    · rw [blank' c h]; decide
  have separates {gap : List Char} (blank : ∀ c ∈ gap, c = ' ') :
      ∀ c ∈ gap, isSeparator c = true := by
    intro c h
    rw [blank c h]
    decide
  rw [tokensOf, withoutComment, List.takeWhile_append_of_pos written,
    List.takeWhile_cons_of_neg (by decide), List.append_nil, List.append_assoc,
    fields_gap (separates blank)]
  cases ts with
  | nil =>
    have only := fields_list some plain apart (separates blank')
    rwa [List.flatMap_nil, List.append_nil] at only
  | cons t ts =>
    have next := fields_list (fun w h => some w (List.mem_cons_of_mem _ h))
      (fun w h => plain w (List.mem_cons_of_mem _ h)) apart (separates blank')
    have one : ∀ c ∈ [' '], isSeparator c = true := List.all_eq_true.1 (by decide)
    have first := fields_word (some keyword List.mem_cons_self)
      (fun c h => (isPlain_iff.1 (plain keyword List.mem_cons_self c h)).1) (by decide) one
      (t ++ ts.flatMap ([',', ' '] ++ ·) ++ gap)
    rw [next] at first
    rw [← first]
    simp [phrase]

end OneBus.Assembly
