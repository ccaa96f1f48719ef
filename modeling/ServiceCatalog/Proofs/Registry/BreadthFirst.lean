import Mathlib.Data.List.Infix
import ServiceCatalog.Proofs.Registry.Hierarchy

/-!
# Breadth-first order

The closure of a class is its own list of supertypes: behind the class stand the direct supertypes of the listed
classes, class by class, each where it is met first (`closure_eq_cons_taken`).  All that is meant by breadth first
follows from this one equation.

* `IsBreadthFirst`: what the order of a closure is.
* `isBreadthFirst_closure`: the closure of a hierarchy is in that order.
-/

namespace ServiceCatalog

/-- Whether a class is reached from another one by a given number of direct supertypes. -/
inductive ReachesIn (supers : ClassName → List ClassName) (c : ClassName) : Nat → ClassName → Prop
  | here : ReachesIn supers c 0 c
  | step {n : Nat} {d e : ClassName} (h : ReachesIn supers c n d) (he : e ∈ supers d) : ReachesIn supers c (n + 1) e

/-- Whether a list holds a class and all its supertypes in breadth-first order. -/
structure IsBreadthFirst (supers : ClassName → List ClassName) (c : ClassName) (l : List ClassName) : Prop where
  starts : l.head? = some c
  nodup : l.Nodup
  mem_iff : ∀ d, d ∈ l ↔ Relation.ReflTransGen (fun a b => b ∈ supers a) c d
  /-- No class is nearer to the first one than the classes in front of it. -/
  distance : l.Pairwise fun a b => ∀ n, ReachesIn supers c n b → ∃ m ≤ n, ReachesIn supers c m a
  /-- The supertypes of a class that those of the classes in front of it do not comprise stand together, in the
  order of their declaration. -/
  siblings : ∀ front d behind, l = front ++ d :: behind →
    (supers d).filter (fun e => e ≠ c ∧ ∀ a ∈ front, e ∉ supers a) <:+: l

namespace Hierarchy

variable {h : Hierarchy}

/-- The classes of a list that are among given ones, each where it stands first. -/
def taken (unseen : List ClassName) : List ClassName → List ClassName
  | [] => []
  | d :: l => if d ∈ unseen then d :: taken (without unseen [d]) l else taken unseen l

theorem mem_without {l away : List ClassName} {d : ClassName} : d ∈ without l away ↔ d ∈ l ∧ d ∉ away := by
  simp [without]

theorem without_without (l away away' : List ClassName) :
    without (without l away) away' = without l (away ++ away') := by
  simp only [without, List.filter_filter]
  refine List.filter_congr fun d _ => ?_
  by_cases hd : d ∈ away <;> by_cases hd' : d ∈ away' <;> simp [hd, hd']

theorem mem_taken {unseen l : List ClassName} {d : ClassName} : d ∈ taken unseen l ↔ d ∈ unseen ∧ d ∈ l := by
  induction l generalizing unseen with
  | nil => simp [taken]
  | cons e l ih =>
    rw [taken]
    by_cases he : e ∈ unseen
    · rw [if_pos he, List.mem_cons, ih, mem_without]
      by_cases hde : d = e
      · simp [hde, he]
      · simp [hde]
    · rw [if_neg he, ih]
      by_cases hde : d = e
      · simp [hde, he]
      · simp [hde]

theorem nodup_taken (unseen l : List ClassName) : (taken unseen l).Nodup := by
  induction l generalizing unseen with
  | nil => exact List.nodup_nil
  | cons e l ih =>
    rw [taken]
    split
    · refine List.nodup_cons.mpr ⟨fun hmem => ?_, ih _⟩
      exact absurd (mem_without.mp (mem_taken.mp hmem).1).2 (by simp)
    · exact ih _

/-- What a list takes is not left for the list behind it. -/
theorem taken_append (unseen l l' : List ClassName) :
    taken unseen (l ++ l') = taken unseen l ++ taken (without unseen l) l' := by
  induction l generalizing unseen with
  | nil => simp [taken]
  | cons e l ih =>
    rw [List.cons_append, taken, taken]
    by_cases he : e ∈ unseen
    · rw [if_pos he, if_pos he, ih, List.cons_append, without_without]
      rfl
    · rw [if_neg he, if_neg he, ih]
      have hgone : without unseen [e] = unseen := List.filter_eq_self.mpr fun d hd => by
        have hde : d ≠ e := by
          rintro rfl
          exact he hd
        simpa using hde
      have hsame : without unseen (e :: l) = without unseen l := by
        rw [show e :: l = [e] ++ l from rfl, ← without_without, hgone]
      rw [hsame]

/-- A list without repetitions takes what is there of it. -/
theorem taken_of_nodup {l : List ClassName} (hl : l.Nodup) (unseen : List ClassName) :
    taken unseen l = l.filter unseen.contains := by
  induction l generalizing unseen with
  | nil => rfl
  | cons e l ih =>
    obtain ⟨he, hl⟩ := List.nodup_cons.mp hl
    have hrest : l.filter (without unseen [e]).contains = l.filter unseen.contains := by
      refine List.filter_congr fun d hd => ?_
      have hde : d ≠ e := by
        rintro rfl
        exact he hd
      rw [Bool.eq_iff_iff, List.contains_iff_mem, List.contains_iff_mem, mem_without]
      simp [hde]
    rw [taken]
    by_cases hmem : e ∈ unseen
    · rw [if_pos hmem, ih hl, hrest, List.filter_cons_of_pos (by simpa using hmem)]
    · rw [if_neg hmem, ih hl, List.filter_cons_of_neg (by simpa using hmem)]

/-! ## The closure as its own list of supertypes -/

/-- Behind a queue, a visit lists the supertypes of all that it lists, each where it is met first. -/
theorem visit_eq_append_taken (hdirect : ∀ c, (h.direct c).Nodup) (unseen queue : List ClassName) :
    h.visit unseen queue = queue ++ taken unseen ((h.visit unseen queue).flatMap h.direct) := by
  fun_induction h.visit unseen queue with
  | case1 unseen => rfl
  | case2 unseen c queue fresh ih =>
    have hfresh : taken unseen (h.direct c) = fresh := taken_of_nodup (hdirect c) unseen
    have hleft : without unseen (h.direct c) = without unseen fresh := by
      refine List.filter_congr fun d hd => ?_
      simp [← hfresh, taken_of_nodup (hdirect c), hd]
    rw [List.flatMap_cons, taken_append, hfresh, hleft, List.cons_append, ← List.append_assoc, ← ih]

/-- The classes that the closure of a class finds unseen: the supertypes of any class, apart from the class. -/
def others (h : Hierarchy) (c : ClassName) : List ClassName := (h.edges.map Prod.snd).filter (· ≠ c)

theorem mem_others_of_extends {c d e : ClassName} (hde : h.Extends d e) : e ∈ h.others c ↔ e ≠ c := by
  have hmem : e ∈ h.edges.map Prod.snd := List.mem_map.mpr ⟨(d, e), mem_direct.mp hde, rfl⟩
  simp only [others, List.mem_filter, hmem, true_and, decide_eq_true_eq]

theorem closure_eq_cons_taken (hdirect : ∀ c, (h.direct c).Nodup) (c : ClassName) :
    h.closure c = c :: taken (h.others c) ((h.closure c).flatMap h.direct) :=
  visit_eq_append_taken hdirect _ _

/-- The class itself and the supertypes of the classes in front come first, and those of a class follow them. -/
theorem closure_eq_of_split (hdirect : ∀ c, (h.direct c).Nodup) {c d : ClassName} {front behind : List ClassName}
    (hsplit : h.closure c = front ++ d :: behind) :
    ∃ rest, h.closure c = (c :: taken (h.others c) (front.flatMap h.direct)) ++
      ((h.direct d).filter fun e => e ≠ c ∧ ∀ a ∈ front, e ∉ h.direct a) ++ rest := by
  have hd : taken (without (h.others c) (front.flatMap h.direct)) (h.direct d) =
      (h.direct d).filter fun e => e ≠ c ∧ ∀ a ∈ front, e ∉ h.direct a := by
    rw [taken_of_nodup (hdirect d)]
    refine List.filter_congr fun e he => ?_
    rw [Bool.eq_iff_iff, List.contains_iff_mem, mem_without, mem_others_of_extends he]
    simp
  refine ⟨taken (without (without (h.others c) (front.flatMap h.direct)) (h.direct d))
    (behind.flatMap h.direct), ?_⟩
  rw [closure_eq_cons_taken hdirect c, hsplit, List.flatMap_append, List.flatMap_cons, taken_append, taken_append,
    hd, List.cons_append, List.cons_append, List.append_assoc]

theorem nodup_closure (hdirect : ∀ c, (h.direct c).Nodup) (c : ClassName) : (h.closure c).Nodup := by
  rw [closure_eq_cons_taken hdirect]
  refine List.nodup_cons.mpr ⟨fun hmem => ?_, nodup_taken _ _⟩
  simpa [others] using (mem_taken.mp hmem).1

theorem mem_closure_of_reachesIn {c d : ClassName} {n : Nat} (hd : ReachesIn h.direct c n d) : d ∈ h.closure c := by
  rw [mem_closure_iff]
  induction hd with
  | here => exact .refl
  | step _ he ih => exact ih.tail he

/-- A list without repetitions is split at a class in one way, so what stands in front of the class is in every
beginning of the list that holds the class. -/
theorem mem_of_split {l l' front behind : List ClassName} {a b : ClassName} (hnodup : (l ++ l').Nodup)
    (hsplit : l ++ l' = front ++ b :: behind) (hb : b ∈ l) (ha : a ∈ front) : a ∈ l := by
  rcases List.append_eq_append_iff.mp hsplit with ⟨more, rfl, hbehind⟩ | ⟨more, rfl, -⟩
  · -- the class would stand both in the beginning and behind it
    have hb' : b ∈ l' := by simp [hbehind]
    exact absurd rfl ((List.nodup_append.mp hnodup).2.2 b hb b hb')
  · exact List.mem_append_left _ ha

/-- What stands in front of a class is not farther away: it was met among the supertypes of classes up to the one
through which the class is reached, and these are not farther away by induction. -/
theorem exists_reachesIn_of_split (hdirect : ∀ c, (h.direct c).Nodup) {c : ClassName} {n : Nat} {b : ClassName}
    (hb : ReachesIn h.direct c n b) {front behind : List ClassName} (hsplit : h.closure c = front ++ b :: behind)
    {a : ClassName} (ha : a ∈ front) : ∃ m ≤ n, ReachesIn h.direct c m a := by
  have hnodup := nodup_closure hdirect c
  induction hb generalizing front behind a with
  | here =>
    have hcons := closure_eq_cons_taken hdirect c
    have hself : a ∈ [c] := mem_of_split ((congrArg List.Nodup hcons).mp hnodup) (hcons.symm.trans hsplit)
      (List.mem_singleton_self c) ha
    rw [List.mem_singleton.mp hself]
    exact ⟨0, Nat.le_refl 0, .here⟩
  | @step n p b hp hpb ih =>
    obtain ⟨pfront, pbehind, hpsplit⟩ := List.append_of_mem (mem_closure_of_reachesIn hp)
    obtain ⟨rest, hrest⟩ := closure_eq_of_split hdirect hpsplit
    -- the supertypes of the classes up to `p` begin the closure, and `b` is among them
    have hb : b ∈ (c :: taken (h.others c) (pfront.flatMap h.direct)) ++
        ((h.direct p).filter fun e => e ≠ c ∧ ∀ a ∈ pfront, e ∉ h.direct a) := by
      by_cases hbc : b = c
      · simp [hbc]
      · by_cases hseen : ∃ q ∈ pfront, b ∈ h.direct q
        · refine List.mem_append_left _ (List.mem_cons_of_mem _ (mem_taken.mpr ⟨?_, by simpa using hseen⟩))
          exact (mem_others_of_extends hpb).mpr hbc
        · refine List.mem_append_right _ (List.mem_filter.mpr ⟨hpb, ?_⟩)
          simpa [hbc] using hseen
    have ha := mem_of_split (hrest ▸ hnodup) (hrest.symm.trans hsplit) hb ha
    rcases List.mem_append.mp ha with ha | ha
    · rcases List.mem_cons.mp ha with rfl | ha
      · exact ⟨0, Nat.zero_le _, .here⟩
      · obtain ⟨q, hq, haq⟩ := List.mem_flatMap.mp (mem_taken.mp ha).2
        obtain ⟨m, hmn, hm⟩ := ih hpsplit hq
        exact ⟨m + 1, Nat.succ_le_succ hmn, .step hm haq⟩
    · exact ⟨n + 1, Nat.le_refl _, .step hp (List.mem_filter.mp ha).1⟩

/-- The closure of a class is in breadth-first order. -/
theorem isBreadthFirst_closure (hdirect : ∀ c, (h.direct c).Nodup) (c : ClassName) :
    IsBreadthFirst h.direct c (h.closure c) where
  starts := by rw [closure_eq_cons_taken hdirect, List.head?_cons]
  nodup := nodup_closure hdirect c
  mem_iff _ := mem_closure_iff
  distance := by
    refine List.pairwise_iff_getElem.mpr fun i j hi hj hij n hb => ?_
    have hsplit : h.closure c = (h.closure c).take j ++ (h.closure c)[j] :: (h.closure c).drop (j + 1) := by simp
    refine exists_reachesIn_of_split hdirect hb hsplit ?_
    exact List.mem_take_iff_getElem.mpr ⟨i, by omega, rfl⟩
  siblings front d behind hsplit := by
    obtain ⟨rest, hrest⟩ := closure_eq_of_split hdirect hsplit
    exact ⟨_, rest, hrest.symm⟩

end Hierarchy

end ServiceCatalog
