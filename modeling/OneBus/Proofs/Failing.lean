import Mathlib.Data.List.Forall2

/-!
Folds and maps that may fail. A fold that succeeds keeps what each of its steps keeps, and one that
fails does so at one of its members; a map fails at the first member that it fails at.
-/

namespace OneBus

theorem exists_ok_of_bind {ε α β : Type} {first : Except ε α} {next : α → Except ε β} {b : β}
    (h : first >>= next = .ok b) : ∃ a, first = .ok a ∧ next a = .ok b := by
  cases first with
  | error _ => exact nomatch h
  | ok a => exact ⟨a, rfl, h⟩

theorem toOption_eq_some_iff {ε α : Type} {x : Except ε α} {a : α} :
    x.toOption = some a ↔ x = .ok a := by
  cases x <;> simp [Except.toOption]

theorem mapError_eq_ok_iff {ε ε' α : Type} {f : ε → ε'} {x : Except ε α} {a : α} :
    x.mapError f = .ok a ↔ x = .ok a := by
  cases x <;> simp [Except.mapError]

theorem mapError_eq_error_iff {ε ε' α : Type} {f : ε → ε'} {x : Except ε α} {e : ε'} :
    x.mapError f = .error e ↔ ∃ c, x = .error c ∧ f c = e := by
  cases x <;> simp [Except.mapError]

theorem foldlM_keeps {ε α γ : Type} {f : α → γ → Except ε α} {P : α → Prop} (l : List γ)
    (step : ∀ c ∈ l, ∀ a b, P a → f a c = .ok b → P b) {a b : α} (h : P a)
    (done : l.foldlM f a = .ok b) : P b := by
  induction l generalizing a with
  | nil =>
    cases done
    exact h
  | cons c l ih =>
    rw [List.foldlM_cons] at done
    obtain ⟨d, first, rest⟩ := exists_ok_of_bind done
    exact ih (fun c hc => step c (List.mem_cons_of_mem _ hc))
      (step c List.mem_cons_self a d h first) rest

theorem exists_error_of_foldlM {ε α γ : Type} {f : α → γ → Except ε α} {l : List γ} {a : α} {e : ε}
    (fails : l.foldlM f a = .error e) : ∃ before c after b, l = before ++ c :: after ∧
      before.foldlM f a = .ok b ∧ f b c = .error e := by
  induction l generalizing a with
  | nil => cases fails
  | cons c l ih =>
    rw [List.foldlM_cons] at fails
    cases first : f a c with
    | error e' =>
      rw [first] at fails
      cases fails
      exact ⟨[], c, l, a, rfl, rfl, first⟩
    | ok b =>
      rw [first] at fails
      obtain ⟨before, d, after, n, rfl, reached, fails⟩ := ih fails
      refine ⟨c :: before, d, after, n, rfl, ?_, fails⟩
      rw [List.foldlM_cons, first]
      exact reached

section

variable {ε α β : Type} {f : α → Except ε β}

theorem mapM_eq_ok_iff {l : List α} {bs : List β} :
    l.mapM f = .ok bs ↔ List.Forall₂ (fun a b => f a = .ok b) l bs := by
  induction l generalizing bs with
  | nil =>
    constructor
    · intro h
      cases h
      exact .nil
    · intro h
      cases h
      rfl
  | cons a l ih =>
    rw [List.mapM_cons]
    constructor
    · intro h
      obtain ⟨b, first, h⟩ := exists_ok_of_bind h
      obtain ⟨bs, rest, h⟩ := exists_ok_of_bind h
      cases h
      exact .cons first (ih.1 rest)
    · intro h
      cases h with
      | cons first rest =>
        rw [first, ih.2 rest]
        rfl

theorem mapM_eq_some_iff {g : α → Option β} {l : List α} {bs : List β} :
    l.mapM g = some bs ↔ List.Forall₂ (fun a b => g a = some b) l bs := by
  induction l generalizing bs with
  | nil => simp [eq_comm]
  | cons a l ih =>
    simp only [List.mapM_cons, Option.bind_eq_bind, Option.bind_eq_some_iff, ih, Option.pure_def,
      Option.some.injEq]
    constructor
    · rintro ⟨b, first, bs, rest, rfl⟩
      exact .cons first rest
    · intro h
      cases h with
      | cons first rest => exact ⟨_, first, _, rest, rfl⟩

theorem exists_mapM_eq_ok_iff {l : List α} :
    (∃ bs, l.mapM f = .ok bs) ↔ ∀ a ∈ l, ∃ b, f a = .ok b := by
  constructor
  · rintro ⟨bs, h⟩
    have pairs := mapM_eq_ok_iff.1 h
    clear h
    induction pairs with
    | nil => simp
    | cons first _ ih => exact List.forall_mem_cons.2 ⟨⟨_, first⟩, ih⟩
  · intro h
    induction l with
    | nil => exact ⟨[], rfl⟩
    | cons a l ih =>
      obtain ⟨⟨b, first⟩, h⟩ := List.forall_mem_cons.1 h
      obtain ⟨bs, rest⟩ := ih h
      exact ⟨b :: bs, by rw [List.mapM_cons, first, rest]; rfl⟩

theorem mapM_eq_error_iff {l : List α} {e : ε} :
    l.mapM f = .error e ↔ ∃ before a after, l = before ++ a :: after ∧
      (∀ c ∈ before, ∃ b, f c = .ok b) ∧ f a = .error e := by
  induction l with
  | nil =>
    constructor
    · intro h
      cases h
    · rintro ⟨before, a, after, split, -, -⟩
      cases before <;> cases split
  | cons a l ih =>
    rw [List.mapM_cons]
    constructor
    · intro h
      cases first : f a with
      | error e' =>
        rw [first] at h
        cases h
        exact ⟨[], a, l, rfl, by simp, first⟩
      | ok b =>
        rw [first] at h
        cases rest : l.mapM f with
        | ok bs => rw [rest] at h; cases h
        | error e' =>
          rw [rest] at h
          cases h
          obtain ⟨before, c, after, split, fine, fails⟩ := ih.1 rest
          refine ⟨a :: before, c, after, by rw [split]; rfl, ?_, fails⟩
          intro d hd
          rcases List.mem_cons.1 hd with rfl | hd
          · exact ⟨b, first⟩
          · exact fine d hd
    · rintro ⟨before, c, after, split, fine, fails⟩
      cases before with
      | nil =>
        cases split
        rw [fails]
        rfl
      | cons d before =>
        cases split
        obtain ⟨b, first⟩ := fine a List.mem_cons_self
        have others : ∀ d ∈ before, ∃ b, f d = .ok b :=
          fun d hd => fine d (List.mem_cons_of_mem _ hd)
        have rest := ih.2 ⟨before, c, after, rfl, others, fails⟩
        rw [first, rest]
        rfl

end

end OneBus
