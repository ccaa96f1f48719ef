import ServiceCatalog.Name.ClassName

/-!
# Supertypes

Which classes a class extends or implements directly, and from that all its supertypes.  The direct
supertypes of a class keep the order in which they were declared.

`closure` visits the supertypes breadth first.  It keeps the classes that are still unseen, so a class
enters the queue once; a visit that adds to the queue makes the unseen ones fewer, and the others shorten
the queue.  The answer depends on nothing but the declared supertypes.
-/

namespace ServiceCatalog

/-- Direct supertypes, in the order of their declaration. -/
structure Hierarchy where
  edges : List (ClassName × ClassName)
  deriving DecidableEq, Repr

namespace Hierarchy

/-- No supertypes. -/
def empty : Hierarchy := ⟨[]⟩

instance : Inhabited Hierarchy := ⟨empty⟩

/-- Declares a direct supertype.  A class is none of its own, and a second declaration adds nothing. -/
def add (h : Hierarchy) (sub super : ClassName) : Hierarchy :=
  if sub = super || h.edges.contains (sub, super) then h else ⟨h.edges ++ [(sub, super)]⟩

/-- The number of declared supertypes. -/
def size (h : Hierarchy) : Nat := h.edges.length

/-- The direct supertypes of a class. -/
def direct (h : Hierarchy) (c : ClassName) : List ClassName :=
  (h.edges.filter fun e => e.1 = c).map Prod.snd

/-- The classes of a list that are not in another one. -/
def without (l away : List ClassName) : List ClassName := l.filter fun d => !away.contains d

theorem length_without_lt {l away : List ClassName} {d : ClassName} (ha : d ∈ away) (hl : d ∈ l) :
    (without l away).length < l.length := by
  rw [without, List.length_filter_lt_length_iff_exists]
  exact ⟨d, hl, by simp [ha]⟩

@[simp] theorem without_nil (l : List ClassName) : without l [] = l := by simp [without]

/-- The direct supertypes of a class that are still unseen. -/
def unseenSupers (h : Hierarchy) (unseen : List ClassName) (c : ClassName) : List ClassName :=
  (h.direct c).filter unseen.contains

/-- The classes in a queue, and behind them their supertypes among the unseen ones. -/
def visit (h : Hierarchy) (unseen queue : List ClassName) : List ClassName :=
  match queue with
  | [] => []
  | c :: queue =>
    let fresh := h.unseenSupers unseen c
    c :: h.visit (without unseen fresh) (queue ++ fresh)
termination_by (unseen.length, queue.length)
decreasing_by
  cases hf : h.unseenSupers unseen c with
  | nil => simp [Prod.lex_def]
  | cons d ds =>
    have hd : d ∈ h.unseenSupers unseen c := by simp [hf]
    have hmem : d ∈ unseen := by simpa using (List.mem_filter.1 hd).2
    exact Prod.Lex.left _ _ (length_without_lt (List.mem_cons_self ..) hmem)

/-- The class itself and all its supertypes, breadth first. -/
def closure (h : Hierarchy) (c : ClassName) : List ClassName :=
  h.visit ((h.edges.map Prod.snd).filter (· ≠ c)) [c]

end Hierarchy

end ServiceCatalog
