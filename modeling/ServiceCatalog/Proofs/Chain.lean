import Mathlib.Data.List.Forall2

/-!
# Chains of steps that can fail

A chain of steps in `Except` succeeds if each of its steps does, and then its result is made of theirs.
Where steps commute up to a relation, their order does not matter up to that relation.
-/

namespace ServiceCatalog

variable {ε α β : Type}

theorem bind_eq_ok_iff {x : Except ε α} {f : α → Except ε β} {b : β} :
    x >>= f = .ok b ↔ ∃ a, x = .ok a ∧ f a = .ok b := by
  cases x with
  | error e => simp [bind, Except.bind]
  | ok a => simp [bind, Except.bind]

/-- Going through the parts of each element is going through all parts. -/
theorem foldlM_flatMap {γ : Type} (step : β → γ → Except ε β) (parts : α → List γ) (l : List α) (b : β) :
    (l.flatMap parts).foldlM step b = l.foldlM (fun b a => (parts a).foldlM step b) b := by
  induction l generalizing b with
  | nil => rfl
  | cons a l ih =>
    rw [List.flatMap_cons, List.foldlM_append, List.foldlM_cons]
    exact congrArg _ (funext ih)

/-- A chain fails with the first of its steps that fails, behind steps that succeed. -/
theorem foldlM_eq_error_iff {step : β → α → Except ε β} {l : List α} {b : β} {e : ε} :
    l.foldlM step b = .error e ↔
      ∃ front a behind, l = front ++ a :: behind ∧ ∃ b', front.foldlM step b = .ok b' ∧ step b' a = .error e := by
  induction l generalizing b with
  | nil => exact ⟨nofun, fun ⟨front, a, behind, hsplit, _⟩ => absurd hsplit.symm (by simp)⟩
  | cons x l ih =>
    rw [List.foldlM_cons]
    constructor
    · intro h
      cases hx : step b x with
      | error e' =>
        rw [hx] at h
        exact ⟨[], x, l, rfl, b, rfl, hx.trans h⟩
      | ok b₁ =>
        rw [hx] at h
        obtain ⟨front, a, behind, rfl, b', hfront, ha⟩ := ih.mp h
        exact ⟨x :: front, a, behind, rfl, b', by rw [List.foldlM_cons, hx]; exact hfront, ha⟩
    · rintro ⟨front, a, behind, hsplit, b', hfront, ha⟩
      cases front with
      | nil =>
        obtain ⟨rfl, rfl⟩ := List.cons.inj hsplit
        obtain rfl : b = b' := Except.ok.inj hfront
        rw [ha]
        rfl
      | cons y front =>
        obtain ⟨rfl, rfl⟩ := List.cons.inj hsplit
        rw [List.foldlM_cons, bind_eq_ok_iff] at hfront
        obtain ⟨b₁, hx, hfront⟩ := hfront
        rw [hx]
        exact ih.mpr ⟨front, a, behind, rfl, b', hfront, ha⟩

/-- Several steps succeed if each of them does. -/
theorem mapM_eq_ok_iff {f : α → Except ε β} {l : List α} {bs : List β} :
    l.mapM f = .ok bs ↔ List.Forall₂ (fun a b => f a = .ok b) l bs := by
  induction l generalizing bs with
  | nil =>
    rw [List.mapM_nil, List.forall₂_nil_left_iff]
    exact ⟨fun h => (Except.ok.inj h).symm, fun h => congrArg _ h.symm⟩
  | cons a l ih =>
    simp only [List.mapM_cons, bind_eq_ok_iff, List.forall₂_cons_left_iff, ih]
    constructor
    · rintro ⟨b, hb, bs', hbs, h⟩
      exact ⟨b, bs', hb, hbs, (Except.ok.inj h).symm⟩
    · rintro ⟨b, bs', hb, hbs, rfl⟩
      exact ⟨b, hb, bs', hbs, rfl⟩

/-- Several steps all succeed exactly if none of them fails. -/
theorem exists_mapM_eq_ok_iff {f : α → Except ε β} {l : List α} :
    (∃ bs, l.mapM f = .ok bs) ↔ ∀ a ∈ l, ∃ b, f a = .ok b := by
  induction l with
  | nil => exact ⟨fun _ a ha => absurd ha List.not_mem_nil, fun _ => ⟨[], rfl⟩⟩
  | cons a l ih =>
    simp only [mapM_eq_ok_iff] at ih ⊢
    rw [List.forall_mem_cons, ← ih]
    constructor
    · rintro ⟨bs, hbs⟩
      obtain ⟨b, bs', hb, hbs', -⟩ := List.forall₂_cons_left_iff.mp hbs
      exact ⟨⟨b, hb⟩, bs', hbs'⟩
    · rintro ⟨⟨b, hb⟩, bs', hbs'⟩
      exact ⟨b :: bs', .cons hb hbs'⟩

/-- The results of several steps are those of the single steps. -/
theorem mem_of_mapM_eq_ok {f : α → Except ε β} {l : List α} {bs : List β} (h : l.mapM f = .ok bs) {b : β} :
    b ∈ bs ↔ ∃ a ∈ l, f a = .ok b := by
  induction mapM_eq_ok_iff.mp h with
  | nil => simp
  | @cons a b' l bs hb hbs ih =>
    rw [List.mem_cons, List.exists_mem_cons_iff, ih (mapM_eq_ok_iff.mpr hbs), hb, Except.ok.injEq, eq_comm]

/-- Steps that respect a relation take related states to related ones. -/
theorem foldl_related {R : β → β → Prop} {f : β → α → β} (hf : ∀ a {b b'}, R b b' → R (f b a) (f b' a))
    (l : List α) {b b' : β} (h : R b b') : R (l.foldl f b) (l.foldl f b') := by
  induction l generalizing b b' with
  | nil => exact h
  | cons a l ih => exact ih (hf a h)

/-- Steps that commute up to a relation can be taken in any order. -/
theorem foldl_perm {R : β → β → Prop} (hR : Equivalence R) {P : α → α → Prop}
    (hP : ∀ {a a'}, P a a' → P a' a) {f : β → α → β} (hf : ∀ a {b b'}, R b b' → R (f b a) (f b' a))
    (hcomm : ∀ {a a'} b, P a a' → R (f (f b a) a') (f (f b a') a)) {l l' : List α} (p : l.Perm l')
    (hl : l.Pairwise P) (b : β) : R (l.foldl f b) (l'.foldl f b) := by
  induction p generalizing b with
  | nil => exact hR.refl b
  | cons a _ ih => exact ih (List.pairwise_cons.mp hl).2 (f b a)
  | swap a a' l =>
    have haa' : P a' a := (List.pairwise_cons.mp hl).1 a (List.mem_cons_self ..)
    exact foldl_related hf l (hcomm b haa')
  | trans p₁ _ ih₁ ih₂ => exact hR.trans (ih₁ hl b) (ih₂ ((p₁.pairwise_iff hP).mp hl) b)

end ServiceCatalog
