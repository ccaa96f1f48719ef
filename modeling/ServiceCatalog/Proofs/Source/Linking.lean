import ServiceCatalog.Proofs.Registry.Lookup
import ServiceCatalog.Source.Linking

/-!
# What linking does

Linking changes the targets of type aliases and the supertypes of classes, and nothing else.  The rounds in
which supertypes are linked leave a trace: every link with the resolver that found it.  The trace decides
what the rounds do, and each of its resolvers sees a part of the supertypes that are declared in the end.

* `class?_link`: linking neither adds nor removes classes.
* `hierarchy_link`: the supertypes that linking declares are those of its trace, in its order.
* `Link.Fits`: what each link of the trace stands for.
-/

namespace ServiceCatalog

/-- A supertype that was linked: the resolver that did it, the supertype, and the class it found. -/
structure Link where
  resolver : Resolver
  written : OpenSupertype
  target : ClassName

namespace Link

/-- The pair of classes that the link declares. -/
def edge (l : Link) : ClassName × ClassName := (l.written.sub.name, l.target)

/-- The place of the supertype: the file of its class, and the classes around that. -/
def context (l : Link) : Context := ⟨l.written.sub.file, l.written.sub.scopes⟩

/-- What a link stands for, given what was to be linked and the registry in the end: the resolver found the
target of one of the supertypes, with all packages and with no supertypes but those declared in the end. -/
structure Fits (l : Link) (left : List OpenSupertype) (final : Registry) : Prop where
  written_mem : l.written ∈ left
  supertype?_eq : l.resolver.supertype? l.written = some l.target
  packages_eq : l.resolver.registry.packages = final.packages
  edges_subset : l.resolver.registry.hierarchy.edges ⊆ final.hierarchy.edges

end Link

namespace Resolver

/-- What a resolver links in a round. -/
def links (ρ : Resolver) (left : List OpenSupertype) : List Link :=
  left.filterMap fun o => (ρ.supertype? o).map fun c => ⟨ρ, o, c⟩

theorem edges_eq_map_links (ρ : Resolver) (left : List OpenSupertype) :
    ρ.edges left = (ρ.links left).map Link.edge := by
  rw [edges, links, List.map_filterMap]
  simp only [Option.map_map]
  rfl

theorem mem_links_iff {ρ : Resolver} {left : List OpenSupertype} {l : Link} :
    l ∈ ρ.links left ↔ l.resolver = ρ ∧ l.written ∈ left ∧ ρ.supertype? l.written = some l.target := by
  rw [links, List.mem_filterMap]
  constructor
  · rintro ⟨o, ho, hl⟩
    obtain ⟨c, hc, rfl⟩ := Option.map_eq_some_iff.mp hl
    exact ⟨rfl, ho, hc⟩
  · rintro ⟨rfl, ho, hc⟩
    exact ⟨l.written, ho, by rw [hc]; rfl⟩

end Resolver

/-- The supertypes that are to be linked, class by class. -/
def Pending.supertypes (pending : Pending) : List OpenSupertype :=
  pending.classes.flatMap fun d => d.supertypes.map fun t => ⟨d, t⟩

namespace Registry

/-! ## Type aliases -/

/-- The registry with the target of a type alias set, if that is registered. -/
def linkTarget (r : Registry) (t : DottedName × DottedName) : Registry := (r.linkAlias? t.1 t.2).getD r

theorem linkAliases_fst (r : Registry) (targets : List (DottedName × DottedName)) :
    (r.linkAliases targets).1 = targets.foldl linkTarget r := by
  rw [linkAliases]
  generalize 0 = n
  induction targets generalizing r n with
  | nil => rfl
  | cons t targets ih =>
    rw [List.foldl_cons, List.foldl_cons, linkTarget]
    cases r.linkAlias? t.1 t.2 with
    | none => exact ih r n
    | some r' => exact ih r' (n + 1)

theorem class?_linkTarget (r : Registry) (t : DottedName × DottedName) (c : ClassName) :
    (r.linkTarget t).class? c = r.class? c := by
  rw [linkTarget]
  cases h : r.linkAlias? t.1 t.2 with
  | none => rfl
  | some r' => exact class?_linkAlias? h c

theorem hierarchy_linkTarget (r : Registry) (t : DottedName × DottedName) :
    (r.linkTarget t).hierarchy = r.hierarchy := by
  rw [linkTarget]
  cases h : r.linkAlias? t.1 t.2 with
  | none => rfl
  | some r' => exact hierarchy_linkAlias? h

/-- The target of the alias at the place is set; if no alias is there, none is anywhere else changed. -/
theorem alias?_linkTarget (r : Registry) (t : DottedName × DottedName) (n : DottedName) :
    (r.linkTarget t).alias? n =
      if n.place = t.1.place then (r.alias? n).map ({ · with target := some t.2 }) else r.alias? n := by
  rw [linkTarget]
  cases h : r.linkAlias? t.1 t.2 with
  | some r' => exact alias?_linkAlias? h n
  | none =>
    have hnone : r.alias? t.1 = none := Option.map_eq_none_iff.mp h
    split
    · rename_i hn
      have hn : r.alias? n = none := (r.alias?_eq_of_place hn).trans hnone
      show r.alias? n = _
      rw [hn]
      rfl
    · rfl

theorem class?_linkAliases (r : Registry) (targets : List (DottedName × DottedName)) (c : ClassName) :
    (r.linkAliases targets).1.class? c = r.class? c := by
  rw [linkAliases_fst]
  induction targets generalizing r with
  | nil => rfl
  | cons t targets ih => exact (ih (r.linkTarget t)).trans (class?_linkTarget r t c)

theorem hierarchy_linkAliases (r : Registry) (targets : List (DottedName × DottedName)) :
    (r.linkAliases targets).1.hierarchy = r.hierarchy := by
  rw [linkAliases_fst]
  induction targets generalizing r with
  | nil => rfl
  | cons t targets ih => exact (ih (r.linkTarget t)).trans (hierarchy_linkTarget r t)

/-! ## Supertypes -/

theorem addSupertypes_eq (r : Registry) (edges : List (ClassName × ClassName)) :
    r.addSupertypes edges = { r with hierarchy := r.hierarchy.addAll edges } := by
  rw [addSupertypes]
  induction edges generalizing r with
  | nil => rfl
  | cons e edges ih => exact ih (r.addSupertype e.1 e.2)

theorem addSupertypes_append (r : Registry) (edges edges' : List (ClassName × ClassName)) :
    r.addSupertypes (edges ++ edges') = (r.addSupertypes edges).addSupertypes edges' := List.foldl_append

/-- The trace of the rounds behind the first one. -/
def laterLinks (r : Registry) (left : List OpenSupertype) : List Link :=
  let next := r.linkRound .full left
  if next.2.length < left.length then (Resolver.mk r .full).links left ++ next.1.laterLinks next.2 else []
termination_by left.length

/-- The trace of the rounds. -/
def links (r : Registry) (left : List OpenSupertype) : List Link :=
  let first := r.linkRound .linking left
  (Resolver.mk r .linking).links left ++ first.1.laterLinks first.2

theorem linkRound_fst (r : Registry) (extent : Extent) (left : List OpenSupertype) :
    (r.linkRound extent left).1 = r.addSupertypes (((Resolver.mk r extent).links left).map Link.edge) := by
  rw [← Resolver.edges_eq_map_links]
  rfl

theorem linkRounds_fst (r : Registry) (left : List OpenSupertype) :
    (r.linkRounds left).1 = r.addSupertypes ((r.laterLinks left).map Link.edge) := by
  fun_induction r.linkRounds left with
  | case1 r left next hlt ih =>
    have htrace : r.laterLinks left = (Resolver.mk r .full).links left ++ next.1.laterLinks next.2 := by
      rw [laterLinks]
      exact if_pos hlt
    rw [ih, htrace, List.map_append, addSupertypes_append, ← linkRound_fst]
  | case2 r left next hge =>
    have htrace : r.laterLinks left = [] := by
      rw [laterLinks]
      exact if_neg hge
    rw [htrace]
    rfl

/-- The rounds declare the supertypes of their trace, in its order. -/
theorem linkSupertypes_fst (r : Registry) (left : List OpenSupertype) :
    (r.linkSupertypes left).1 = r.addSupertypes ((r.links left).map Link.edge) := by
  rw [links, List.map_append, addSupertypes_append, ← linkRound_fst]
  exact linkRounds_fst _ _

theorem packages_addSupertypes (r : Registry) (edges : List (ClassName × ClassName)) :
    (r.addSupertypes edges).packages = r.packages := by rw [addSupertypes_eq]

theorem edges_subset_addSupertypes (r : Registry) (edges : List (ClassName × ClassName)) :
    r.hierarchy.edges ⊆ (r.addSupertypes edges).hierarchy.edges := by
  rw [addSupertypes_eq]
  exact Hierarchy.edges_subset_addAll edges

/-- A link of a round fits whatever is declared after the round. -/
theorem fits_of_mem_round {r : Registry} {extent : Extent} {left : List OpenSupertype} {l : Link}
    (hl : l ∈ (Resolver.mk r extent).links left) (edges : List (ClassName × ClassName)) :
    l.Fits left ((r.linkRound extent left).1.addSupertypes edges) := by
  obtain ⟨hρ, hwritten, htarget⟩ := Resolver.mem_links_iff.mp hl
  have hround : r.hierarchy.edges ⊆ (r.linkRound extent left).1.hierarchy.edges :=
    edges_subset_addSupertypes r _
  refine ⟨hwritten, by rw [hρ, htarget], ?_, ?_⟩
  · rw [hρ, packages_addSupertypes]
    exact (packages_addSupertypes r _).symm
  · rw [hρ]
    exact List.Subset.trans hround (edges_subset_addSupertypes _ edges)

/-- What is left after a round was there before it. -/
theorem fits_of_fits_round {r final : Registry} {extent : Extent} {left : List OpenSupertype} {l : Link}
    (h : l.Fits (r.linkRound extent left).2 final) : l.Fits left final :=
  { h with written_mem := (List.mem_filter.mp h.written_mem).1 }

theorem fits_of_mem_laterLinks {r : Registry} {left : List OpenSupertype} {l : Link}
    (hl : l ∈ r.laterLinks left) : l.Fits left (r.linkRounds left).1 := by
  fun_induction r.linkRounds left with
  | case1 r left next hlt ih =>
    rw [laterLinks, if_pos hlt] at hl
    rcases List.mem_append.mp hl with hl | hl
    · rw [linkRounds_fst]
      exact fits_of_mem_round hl _
    · exact fits_of_fits_round (ih hl)
  | case2 r left next hge =>
    rw [laterLinks, if_neg hge] at hl
    exact absurd hl List.not_mem_nil

/-- Every link of the trace fits what was to be linked and the registry in the end. -/
theorem fits_of_mem_links {r : Registry} {left : List OpenSupertype} {l : Link} (hl : l ∈ r.links left) :
    l.Fits left (r.linkSupertypes left).1 := by
  have hrounds : (r.linkSupertypes left).1 =
      ((r.linkRound .linking left).1.linkRounds (r.linkRound .linking left).2).1 := rfl
  rw [hrounds]
  rcases List.mem_append.mp hl with hl | hl
  · rw [linkRounds_fst]
    exact fits_of_mem_round hl _
  · exact fits_of_fits_round (fits_of_mem_laterLinks hl)

/-! ## The whole pass -/

/-- The targets that linking finds for type aliases. -/
def targets (r : Registry) (pending : Pending) : List (DottedName × DottedName) :=
  pending.aliases.filterMap fun a => ((Resolver.mk r .linking).aliasTarget? a).map fun t => (a.name, t)

/-- The trace of a linking. -/
def linkTrace (r : Registry) (pending : Pending) : List Link :=
  (r.linkAliases (r.targets pending)).1.links pending.supertypes

theorem link_fst (r : Registry) (pending : Pending) :
    (r.link pending).1 = ((r.linkAliases (r.targets pending)).1.linkSupertypes pending.supertypes).1 := rfl

/-- Linking neither adds nor removes classes. -/
theorem class?_link (r : Registry) (pending : Pending) (c : ClassName) :
    (r.link pending).1.class? c = r.class? c := by
  rw [link_fst, linkSupertypes_fst, addSupertypes_eq]
  exact class?_linkAliases r _ c

/-- The supertypes that linking declares are those of its trace, in its order. -/
theorem hierarchy_link (r : Registry) (pending : Pending) :
    (r.link pending).1.hierarchy = r.hierarchy.addAll ((r.linkTrace pending).map Link.edge) := by
  rw [link_fst, linkSupertypes_fst, addSupertypes_eq, ← hierarchy_linkAliases r (r.targets pending)]
  rfl

/-- Every link of the trace fits what was to be linked and the registry in the end. -/
theorem fits_of_mem_linkTrace {r : Registry} {pending : Pending} {l : Link} (hl : l ∈ r.linkTrace pending) :
    l.Fits pending.supertypes (r.link pending).1 := fits_of_mem_links hl

end Registry

end ServiceCatalog
