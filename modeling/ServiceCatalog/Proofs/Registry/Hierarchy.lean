import Mathlib.Data.List.Induction
import Mathlib.Logic.Relation
import ServiceCatalog.Registry.Hierarchy

/-!
# Supertypes as a relation

`Hierarchy.direct` is the view of a hierarchy: the order in which edges of different classes were declared
does not show in it.

* `direct_addAll`: after several declarations a class has the supertypes it had before, and behind them
  those that were declared for it.
* `direct_addAll_eq_append`: what is declared for a class comes behind what was declared before.
* `mem_closure_iff`: the closure of a class consists of the classes that it reaches by direct supertypes.
* `closure_congr`: the closure, as a list, depends on nothing but the direct supertypes.
* `mem_closure_mono`: more declarations lose no supertype.
-/

namespace ServiceCatalog.Hierarchy

variable {h h' : Hierarchy}

/-! ## Direct supertypes -/

theorem mem_direct {c d : ClassName} : d ∈ h.direct c ↔ (c, d) ∈ h.edges := by
  simp only [direct, List.mem_map, List.mem_filter, decide_eq_true_eq]
  constructor
  · rintro ⟨⟨_, _⟩, ⟨hmem, rfl⟩, rfl⟩
    exact hmem
  · intro hmem
    exact ⟨(c, d), ⟨hmem, rfl⟩, rfl⟩

/-- The supertypes of a class with one more behind them, unless it is the class itself or one of them. -/
def appended (c : ClassName) (supers : List ClassName) (d : ClassName) : List ClassName :=
  if c = d || supers.contains d then supers else supers ++ [d]

theorem direct_add (sub super c : ClassName) :
    (h.add sub super).direct c = if c = sub then appended c (h.direct c) super else h.direct c := by
  have hmem : h.edges.contains (sub, super) = (h.direct sub).contains super := by
    rw [Bool.eq_iff_iff, List.contains_iff_mem, List.contains_iff_mem, mem_direct]
  rw [add, appended]
  by_cases hc : c = sub
  · subst hc
    rw [if_pos rfl, hmem]
    split
    · rfl
    · simp [direct]
  · rw [if_neg hc]
    split
    · rfl
    · simp [direct, Ne.symm hc]

/-- Declares several supertypes. -/
def addAll (h : Hierarchy) (edges : List (ClassName × ClassName)) : Hierarchy :=
  edges.foldl (fun h e => h.add e.1 e.2) h

/-- The declarations for other classes do not show in the supertypes of a class. -/
theorem direct_addAll (edges : List (ClassName × ClassName)) (c : ClassName) :
    (h.addAll edges).direct c =
      ((edges.filter fun e => e.1 = c).map Prod.snd).foldl (appended c) (h.direct c) := by
  induction edges generalizing h with
  | nil => rfl
  | cons e edges ih =>
    show ((h.add e.1 e.2).addAll edges).direct c = _
    rw [ih, direct_add]
    by_cases hc : e.1 = c
    · rw [if_pos hc.symm, List.filter_cons_of_pos (by simpa using hc), List.map_cons, List.foldl_cons]
    · rw [if_neg (Ne.symm hc), List.filter_cons_of_neg (by simpa using hc)]

/-- The classes of a list other than a given one, each once. -/
def distinct (c : ClassName) (supers : List ClassName) : List ClassName := supers.foldl (appended c) []

/-- What is declared for a class comes behind what was declared before, apart from what is there already. -/
theorem foldl_appended (c : ClassName) (old new : List ClassName) :
    new.foldl (appended c) old = old ++ without (distinct c new) old := by
  -- the two runs stay in step from any list on that both have behind `old`
  have hstep : ∀ supers, new.foldl (appended c) (old ++ without supers old) =
      old ++ without (new.foldl (appended c) supers) old := by
    induction new with
    | nil => exact fun _ => rfl
    | cons d new ih =>
      intro supers
      rw [List.foldl_cons, List.foldl_cons, ← ih]
      congr 1
      by_cases hc : c = d
      · simp [appended, hc]
      · by_cases hd : d ∈ supers
        · by_cases ho : d ∈ old <;> simp [appended, without, hc, hd, ho]
        · by_cases ho : d ∈ old <;> simp [appended, without, hc, hd, ho]
  simpa [without, distinct] using hstep []

theorem direct_addAll_eq_append (edges : List (ClassName × ClassName)) (c : ClassName) :
    (h.addAll edges).direct c = h.direct c ++
      without (distinct c ((edges.filter fun e => e.1 = c).map Prod.snd)) (h.direct c) := by
  rw [direct_addAll, foldl_appended]

theorem nodup_distinct (c : ClassName) (supers : List ClassName) : (distinct c supers).Nodup := by
  have hkeep : ∀ l : List ClassName, l.Nodup → (supers.foldl (appended c) l).Nodup := by
    induction supers with
    | nil => exact fun _ hl => hl
    | cons d supers ih =>
      intro l hl
      refine ih _ ?_
      rw [appended]
      split
      · exact hl
      · rename_i hnew
        have hd : ∀ a ∈ l, a ≠ d := by
          rintro a ha rfl
          exact hnew (by simp [ha])
        exact List.nodup_append.mpr ⟨hl, by simp, by simpa using hd⟩
  exact hkeep [] List.nodup_nil

theorem distinct_eq_eraseDups (c : ClassName) (supers : List ClassName) :
    distinct c supers = (supers.filter (· ≠ c)).eraseDups := by
  induction supers using List.reverseRecOn with
  | nil => rfl
  | append_singleton supers d ih =>
    have hstep : distinct c (supers ++ [d]) = appended c (distinct c supers) d := List.foldl_append
    rw [hstep, ih, appended, List.filter_append, List.eraseDups_append]
    by_cases hc : c = d
    · simp [hc, List.removeAll]
    · by_cases hd : d ∈ supers
      · simp [hd, Ne.symm hc, List.removeAll]
      · simp [hc, hd, Ne.symm hc, List.removeAll, List.eraseDups_cons]

/-- With some classes in front, the others of a list without repetition make up a second such list exactly if
the first ones begin the second list and the others go on in its order. -/
theorem append_without_eq_iff {old new supers : List ClassName} (hsupers : supers.Nodup) :
    old ++ without new old = supers ↔ old <+: supers ∧ without new old = without supers old := by
  have hrest : ∀ rest : List ClassName, (∀ d ∈ rest, d ∉ old) → without (old ++ rest) old = rest := by
    intro rest hrest
    have hold : without old old = [] := List.filter_eq_nil_iff.mpr fun d hd => by simp [hd]
    have hself : without rest old = rest := List.filter_eq_self.mpr fun d hd => by simp [hrest d hd]
    rw [without, List.filter_append]
    show without old old ++ without rest old = rest
    rw [hold, hself, List.nil_append]
  constructor
  · rintro rfl
    refine ⟨List.prefix_append .., (hrest _ fun d hd => ?_).symm⟩
    simpa using (List.mem_filter.mp hd).2
  · rintro ⟨⟨rest, rfl⟩, hnew⟩
    rw [hnew, hrest rest fun d hd hold => (List.nodup_append.mp hsupers).2.2 d hold d hd rfl]

theorem edges_subset_add (sub super : ClassName) : h.edges ⊆ (h.add sub super).edges := by
  intro e he
  rw [add]
  split
  · exact he
  · exact List.mem_append_left _ he

theorem edges_subset_addAll (edges : List (ClassName × ClassName)) : h.edges ⊆ (h.addAll edges).edges := by
  induction edges generalizing h with
  | nil => exact fun _ he => he
  | cons e edges ih => exact fun _ he => ih (edges_subset_add e.1 e.2 he)

/-! ## The closure as a set -/

/-- A direct supertype as a relation. -/
def Extends (h : Hierarchy) (c d : ClassName) : Prop := d ∈ h.direct c

open Relation in
theorem exists_reaches_of_mem_visit {unseen queue : List ClassName} {d : ClassName}
    (hd : d ∈ h.visit unseen queue) : ∃ c ∈ queue, ReflTransGen h.Extends c d := by
  fun_induction h.visit unseen queue with
  | case1 => simp at hd
  | case2 unseen c queue fresh ih =>
    rcases List.mem_cons.mp hd with rfl | hd
    · exact ⟨d, List.mem_cons_self .., .refl⟩
    · obtain ⟨e, he, hreach⟩ := ih hd
      rcases List.mem_append.mp he with he | he
      · exact ⟨e, List.mem_cons_of_mem _ he, hreach⟩
      · have hsuper : h.Extends c e := (List.mem_filter.mp he).1
        exact ⟨c, List.mem_cons_self .., .head hsuper hreach⟩

theorem queue_subset_visit (unseen queue : List ClassName) : queue ⊆ h.visit unseen queue := by
  fun_induction h.visit unseen queue with
  | case1 => exact fun _ he => he
  | case2 unseen c queue fresh =>
    rename_i ih
    intro d hd
    rcases List.mem_cons.mp hd with rfl | hd
    · exact List.mem_cons_self ..
    · exact List.mem_cons_of_mem _ (ih (List.mem_append_left _ hd))

/-- A supertype of a visited class is visited too if it was unseen in the beginning. -/
theorem mem_visit_of_extends {unseen queue : List ClassName} {c d : ClassName}
    (hc : c ∈ h.visit unseen queue) (hcd : h.Extends c d) (hd : d ∈ unseen) :
    d ∈ h.visit unseen queue := by
  fun_induction h.visit unseen queue with
  | case1 => simp at hc
  | case2 unseen e queue fresh ih =>
    have hfresh : d ∈ fresh → d ∈ h.visit (without unseen fresh) (queue ++ fresh) := fun hf =>
      queue_subset_visit _ _ (List.mem_append_right _ hf)
    refine List.mem_cons_of_mem _ ?_
    rcases List.mem_cons.mp hc with rfl | hc
    · exact hfresh (List.mem_filter.mpr ⟨hcd, by simpa using hd⟩)
    · by_cases hf : d ∈ fresh
      · exact hfresh hf
      · exact ih hc (List.mem_filter.mpr ⟨hd, by simpa using hf⟩)

/-- The closure of a class consists of the classes that it reaches. -/
theorem mem_closure_iff {c d : ClassName} : d ∈ h.closure c ↔ Relation.ReflTransGen h.Extends c d := by
  constructor
  · intro hd
    obtain ⟨e, he, hreach⟩ := exists_reaches_of_mem_visit hd
    obtain rfl : e = c := by simpa using he
    exact hreach
  · intro hreach
    have hself : c ∈ h.closure c := queue_subset_visit _ _ (List.mem_cons_self ..)
    induction hreach with
    | refl => exact hself
    | @tail e d _ hstep ih =>
      by_cases hdc : d = c
      · exact hdc ▸ hself
      · refine mem_visit_of_extends ih hstep (List.mem_filter.mpr ⟨?_, by simpa using hdc⟩)
        exact List.mem_map.mpr ⟨(e, d), mem_direct.mp hstep, rfl⟩

/-- More declarations lose no supertype. -/
theorem mem_closure_mono (hsub : h.edges ⊆ h'.edges) {c d : ClassName} (hd : d ∈ h.closure c) :
    d ∈ h'.closure c := by
  have hextends : h.Extends ≤ h'.Extends := fun _ _ hstep => mem_direct.mpr (hsub (mem_direct.mp hstep))
  exact mem_closure_iff.mpr (Relation.ReflTransGen.mono hextends _ _ (mem_closure_iff.mp hd))

theorem closure_eq_cons (c : ClassName) : h.closure c = c :: (h.closure c).tail := by
  rw [closure, visit]
  rfl

/-! ## The closure as a list -/

/-- A visit does not depend on the order in which the unseen classes are listed. -/
theorem visit_congr (hdirect : ∀ c, h.direct c = h'.direct c) {unseen unseen' : List ClassName}
    (hunseen : ∀ d, d ∈ unseen ↔ d ∈ unseen') (queue : List ClassName) :
    h.visit unseen queue = h'.visit unseen' queue := by
  fun_induction h.visit unseen queue generalizing unseen' with
  | case1 => rw [visit]
  | case2 unseen c queue fresh =>
    rename_i ih
    have hcontains : unseen.contains = unseen'.contains := by
      funext d
      rw [Bool.eq_iff_iff, List.contains_iff_mem, List.contains_iff_mem, hunseen]
    have hfresh : fresh = h'.unseenSupers unseen' c := by
      rw [unseenSupers, ← hdirect, ← hcontains, ← unseenSupers]
    rw [visit, ← hfresh]
    refine congrArg (c :: ·) (ih fun d => ?_)
    simp only [without, List.mem_filter, hunseen]

/-- The closure depends on nothing but the direct supertypes. -/
theorem closure_congr (hdirect : ∀ c, h.direct c = h'.direct c) (c : ClassName) :
    h.closure c = h'.closure c := by
  refine visit_congr hdirect (fun d => ?_) [c]
  have hedges : (∃ s, (s, d) ∈ h.edges) ↔ ∃ s, (s, d) ∈ h'.edges := by
    simp only [← mem_direct, hdirect]
  simpa using fun _ => hedges

end ServiceCatalog.Hierarchy
