import ServiceCatalog.Proofs.Source.Linking
import ServiceCatalog.Proofs.Source.Reordering

/-!
# The order of sources does not matter for the registry

Sources in another order lead to a registry that cannot be told apart from the one they lead to as they are.
Registration and the linking of type aliases are steps that commute, since no two declarations have one place.
The supertypes that a round declares for a class are those written at the class, in the order in which they
are written there, and a round reads nothing that it declares itself.

* `registerSources_reordered`: registration.
* `linkAliases_alike`: the targets of type aliases.
* `SameOpen`, `linkRounds_alike`: the invariant of the rounds.
* `link_reordered`: the registry after linking.
-/

namespace ServiceCatalog

namespace Registry

variable {r r' : Registry} {sources sources' : List SourceFile}

/-! ## Registration -/

/-- Registration does not look at the file of a declaration. -/
theorem register_bareEntry (r : Registry) (x : DeclaredAlias ⊕ Declared) :
    r.register (bareEntry x) = r.register x := by
  cases x <;> rfl

theorem registerSources_reordered {classPath : Registry} (h : Reordered sources sources')
    (hr : classPath.registerSources sources = .ok r) :
    ∃ r', classPath.registerSources sources' = .ok r' ∧ r.Alike r' := by
  have hbare : ∀ l : List (DeclaredAlias ⊕ Declared),
      (l.map bareEntry).foldlM register classPath = l.foldlM register classPath := by
    intro l
    rw [List.foldlM_map]
    simp only [register_bareEntry]
  rw [registerSources_eq_foldlM, ← hbare] at hr
  obtain ⟨r', hr', halike⟩ := foldlM_register_perm h.entries_perm hr
  exact ⟨r', by rw [registerSources_eq_foldlM, ← hbare, hr'], halike⟩

/-- Registered classes have different names. -/
theorem pairwise_name_of_registerSources {classPath : Registry}
    (h : classPath.registerSources sources = .ok r) :
    (sources.flatMap SourceFile.declared).Pairwise fun d e => d.name ≠ e.name := by
  rw [registerSources_eq_foldlM] at h
  obtain ⟨-, hpair, -⟩ := foldlM_register_eq_ok_iff.mp h
  have hclasses : (sources.flatMap SourceFile.entries).filter Sum.isRight =
      (sources.flatMap SourceFile.declared).map .inr := by
    simp [List.filter_flatMap, List.map_flatMap, SourceFile.entries, List.filter_map, Function.comp_def]
  have hpair := hpair.filter Sum.isRight
  rw [hclasses, List.pairwise_map] at hpair
  exact hpair.imp fun hplace hname => hplace (congrArg ClassName.place hname)

/-- Registered type aliases have different places. -/
theorem pairwise_place_of_registerSources {classPath : Registry}
    (h : classPath.registerSources sources = .ok r) :
    (sources.flatMap SourceFile.declaredAliases).Pairwise fun a b => a.name.place ≠ b.name.place := by
  rw [registerSources_eq_foldlM] at h
  obtain ⟨-, hpair, -⟩ := foldlM_register_eq_ok_iff.mp h
  have haliases : (sources.flatMap SourceFile.entries).filter Sum.isLeft =
      (sources.flatMap SourceFile.declaredAliases).map .inl := by
    simp [List.filter_flatMap, List.map_flatMap, SourceFile.entries, List.filter_map, Function.comp_def]
  have hpair := hpair.filter Sum.isLeft
  rw [haliases, List.pairwise_map] at hpair
  exact hpair

/-! ## Type aliases -/

theorem Alike.linkTarget (h : r.Alike r') (t : DottedName × DottedName) :
    (r.linkTarget t).Alike (r'.linkTarget t) := by
  refine ⟨⟨fun c => ?_, fun n => ?_⟩, fun c => ?_⟩
  · rw [class?_linkTarget, class?_linkTarget, h.lookups.class?_eq]
  · rw [alias?_linkTarget, alias?_linkTarget, h.lookups.alias?_eq]
  · rw [hierarchy_linkTarget, hierarchy_linkTarget, h.direct_eq]

/-- The targets of aliases with different places can be set in either order. -/
theorem linkTarget_comm {t t' : DottedName × DottedName} (r : Registry) (h : t.1.place ≠ t'.1.place) :
    ((r.linkTarget t).linkTarget t').Alike ((r.linkTarget t').linkTarget t) := by
  have hclass : ∀ c, ((r.linkTarget t).linkTarget t').class? c = ((r.linkTarget t').linkTarget t).class? c := by
    intro c
    simp only [class?_linkTarget]
  refine ⟨⟨hclass, fun n => ?_⟩, fun c => by simp only [hierarchy_linkTarget]⟩
  simp only [alias?_linkTarget]
  by_cases hn : n.place = t.1.place
  · have hn' : n.place ≠ t'.1.place := fun hn' => h (hn.symm.trans hn')
    rw [if_neg hn', if_pos hn, if_pos hn, if_neg hn']
  · rw [if_neg hn, if_neg hn]

/-- Aliases with different places can be linked in any order. -/
theorem linkAliases_alike (h : r.Alike r') {targets targets' : List (DottedName × DottedName)}
    (p : targets.Perm targets') (hplaces : targets.Pairwise fun t t' => t.1.place ≠ t'.1.place) :
    (r.linkAliases targets).1.Alike (r'.linkAliases targets').1 := by
  rw [linkAliases_fst, linkAliases_fst]
  have hstep : ∀ t {r r' : Registry}, r.Alike r' → (r.linkTarget t).Alike (r'.linkTarget t) :=
    fun t {_ _} h => h.linkTarget t
  have hstate := foldl_related hstep targets h
  have horder := foldl_perm Alike.equivalence Ne.symm hstep linkTarget_comm p hplaces r'
  exact hstate.trans horder

end Registry

namespace Resolver

theorem aliasTarget?_bare (ρ : Resolver) (a : DeclaredAlias) : ρ.aliasTarget? a.bare = ρ.aliasTarget? a := by
  show ((ρ.resolve ⟨a.file.header, []⟩ (.typeRef a.target)).toOption) = _
  rw [resolve_header]
  rfl

theorem aliasTarget?_congr {r r' : Registry} (h : r.Alike r') (extent : Extent) (a : DeclaredAlias) :
    aliasTarget? ⟨r, extent⟩ a = aliasTarget? ⟨r', extent⟩ a := by
  rw [aliasTarget?, aliasTarget?, resolve_congr h]

end Resolver

namespace Registry

variable {r r' : Registry} {sources sources' : List SourceFile}

/-- The targets of reordered sources are the same ones in another order. -/
theorem targets_perm (halike : r.Alike r') (h : Reordered sources sources') :
    (r.targets (.ofSources sources)).Perm (r'.targets (.ofSources sources')) := by
  have hbare : ∀ (r : Registry) (pending : Pending), r.targets pending =
      (pending.aliases.map DeclaredAlias.bare).filterMap fun a =>
        ((Resolver.mk r .linking).aliasTarget? a).map fun t => (a.name, t) := by
    intro r pending
    rw [List.filterMap_map]
    simp only [Function.comp_def, Resolver.aliasTarget?_bare]
    rfl
  rw [hbare, hbare]
  simp only [Resolver.aliasTarget?_congr halike]
  exact h.declaredAliases_perm.filterMap _

/-- The targets of registered sources belong to aliases with different places. -/
theorem pairwise_targets {classPath : Registry} (h : classPath.registerSources sources = .ok r) :
    (r.targets (.ofSources sources)).Pairwise fun t t' => t.1.place ≠ t'.1.place := by
  refine (pairwise_place_of_registerSources h).filterMap _ fun a a' hplace t ht t' ht' => ?_
  obtain ⟨_, -, rfl⟩ := Option.map_eq_some_iff.mp ht
  obtain ⟨_, -, rfl⟩ := Option.map_eq_some_iff.mp ht'
  exact hplace

end Registry

/-! ## Rounds -/

/-- A supertype apart from the file it is written in, of which the header is kept. -/
def OpenSupertype.bare (o : OpenSupertype) : OpenSupertype := ⟨o.sub.bare, o.super⟩

namespace Resolver

theorem supertype?_bare (ρ : Resolver) (o : OpenSupertype) : ρ.supertype? o.bare = ρ.supertype? o := by
  show (ρ.resolve ⟨o.sub.file.header, o.sub.scopes⟩ (.typeRef o.super)).toOption.bind _ = _
  rw [resolve_header]
  rfl

theorem supertype?_congr {r r' : Registry} (h : r.Alike r') (extent : Extent) :
    supertype? ⟨r, extent⟩ = supertype? ⟨r', extent⟩ := by
  funext o
  simp only [supertype?, resolve_congr h, h.lookups.classifier?_eq]

theorem edges_congr {r r' : Registry} (h : r.Alike r') (extent : Extent) :
    edges ⟨r, extent⟩ = edges ⟨r', extent⟩ := by
  funext left
  rw [edges, edges, supertype?_congr h]

theorem leaves_congr {r r' : Registry} (h : r.Alike r') (extent : Extent) :
    leaves ⟨r, extent⟩ = leaves ⟨r', extent⟩ := by
  funext o
  rw [leaves, leaves, supertype?_congr h]

theorem edges_map_bare (ρ : Resolver) (left : List OpenSupertype) :
    ρ.edges (left.map OpenSupertype.bare) = ρ.edges left := by
  rw [edges, List.filterMap_map]
  simp only [Function.comp_def, supertype?_bare]
  rfl

theorem filter_leaves_map_bare (ρ : Resolver) (left : List OpenSupertype) :
    (left.map OpenSupertype.bare).filter ρ.leaves = (left.filter ρ.leaves).map OpenSupertype.bare := by
  rw [List.filter_map]
  simp only [Function.comp_def, leaves, supertype?_bare]
  rfl

/-- The edges of a class come from the supertypes of the class. -/
theorem filter_edges (ρ : Resolver) (left : List OpenSupertype) (c : ClassName) :
    (ρ.edges left).filter (fun e => e.1 = c) = ρ.edges (left.filter fun o => o.sub.name = c) := by
  induction left with
  | nil => rfl
  | cons o left ih =>
    simp only [edges] at ih ⊢
    by_cases hc : o.sub.name = c
    · rw [List.filter_cons_of_pos (by simpa using hc)]
      cases ho : ρ.supertype? o with
      | none => simpa [List.filterMap_cons, ho] using ih
      | some d => simpa [List.filterMap_cons, ho, hc] using ih
    · rw [List.filter_cons_of_neg (by simpa using hc)]
      cases ho : ρ.supertype? o with
      | none => simpa [List.filterMap_cons, ho] using ih
      | some d => simpa [List.filterMap_cons, ho, hc] using ih

end Resolver

/-- The same supertypes left, those of each class in the same order. -/
structure SameOpen (left left' : List OpenSupertype) : Prop where
  perm : (left.map OpenSupertype.bare).Perm (left'.map OpenSupertype.bare)
  ofClass : ∀ c, (left.map OpenSupertype.bare).filter (fun o => o.sub.name = c) =
    (left'.map OpenSupertype.bare).filter fun o => o.sub.name = c

namespace SameOpen

variable {left left' : List OpenSupertype}

theorem length_eq (h : SameOpen left left') : left.length = left'.length := by
  simpa using h.perm.length_eq

theorem filter_leaves (h : SameOpen left left') (ρ : Resolver) :
    SameOpen (left.filter ρ.leaves) (left'.filter ρ.leaves) := by
  constructor
  · rw [← ρ.filter_leaves_map_bare, ← ρ.filter_leaves_map_bare]
    exact h.perm.filter _
  · intro c
    rw [← ρ.filter_leaves_map_bare, ← ρ.filter_leaves_map_bare, List.filter_comm, h.ofClass, List.filter_comm]

theorem filter_edges_eq (h : SameOpen left left') (ρ : Resolver) (c : ClassName) :
    (ρ.edges left).filter (fun e => e.1 = c) = (ρ.edges left').filter fun e => e.1 = c := by
  rw [← ρ.edges_map_bare left, ← ρ.edges_map_bare left', ρ.filter_edges, ρ.filter_edges, h.ofClass]

end SameOpen

namespace Registry

variable {r r' : Registry} {left left' : List OpenSupertype}

/-- Edges that are the same for each class lead to the same supertypes. -/
theorem Alike.addSupertypes (h : r.Alike r') {edges edges' : List (ClassName × ClassName)}
    (hedges : ∀ c, edges.filter (fun e => e.1 = c) = edges'.filter fun e => e.1 = c) :
    (r.addSupertypes edges).Alike (r'.addSupertypes edges') := by
  rw [addSupertypes_eq, addSupertypes_eq]
  refine ⟨⟨h.lookups.class?_eq, h.lookups.alias?_eq⟩, fun c => ?_⟩
  rw [Hierarchy.direct_addAll, Hierarchy.direct_addAll, hedges, h.direct_eq]

/-- One round. -/
theorem Alike.linkRound (halike : r.Alike r') (h : SameOpen left left') (extent : Extent) :
    (r.linkRound extent left).1.Alike (r'.linkRound extent left').1 ∧
      SameOpen (r.linkRound extent left).2 (r'.linkRound extent left').2 := by
  constructor
  · show (r.addSupertypes _).Alike (r'.addSupertypes _)
    rw [← Resolver.edges_congr halike]
    exact halike.addSupertypes (h.filter_edges_eq _)
  · show SameOpen (left.filter _) (left'.filter _)
    rw [← Resolver.leaves_congr halike]
    exact h.filter_leaves _

/-- All rounds behind the first one. -/
theorem Alike.linkRounds (halike : r.Alike r') (h : SameOpen left left') :
    (r.linkRounds left).1.Alike (r'.linkRounds left').1 := by
  fun_induction r.linkRounds left generalizing r' left' with
  | case1 r left next hlt =>
    rename_i ih
    obtain ⟨hnext, hleft⟩ := halike.linkRound h .full
    have hlt' : (r'.linkRound .full left').2.length < left'.length := by
      rw [← hleft.length_eq, ← h.length_eq]
      exact hlt
    have hstep : r'.linkRounds left' =
        (r'.linkRound .full left').1.linkRounds (r'.linkRound .full left').2 := by
      rw [Registry.linkRounds]
      exact if_pos hlt'
    rw [hstep]
    exact ih hnext hleft
  | case2 r left next =>
    rename_i hge
    have hge' : ¬ (r'.linkRound .full left').2.length < left'.length := by
      rw [← (halike.linkRound h .full).2.length_eq, ← h.length_eq]
      exact hge
    have hstop : r'.linkRounds left' = (r', left') := by
      rw [Registry.linkRounds]
      exact if_neg hge'
    rw [hstop]
    exact halike

theorem Alike.linkSupertypes (halike : r.Alike r') (h : SameOpen left left') :
    (r.linkSupertypes left).1.Alike (r'.linkSupertypes left').1 := by
  obtain ⟨hfirst, hleft⟩ := halike.linkRound h .linking
  exact hfirst.linkRounds hleft

end Registry

/-! ## All of it -/

/-- The entries of a list with a given key are at most one, so they do not show the order of the list. -/
theorem filter_eq_of_perm {α κ : Type} [DecidableEq κ] {key : α → κ} {l l' : List α} (p : l.Perm l')
    (hl : l.Pairwise fun a b => key a ≠ key b) (c : κ) :
    l.filter (fun a => key a = c) = l'.filter fun a => key a = c := by
  have hnone : ∀ {l : List α}, l.Pairwise (fun a b => key a ≠ key b) →
      (l.filter fun a => key a = c).Pairwise fun _ _ => False := by
    intro l hl
    refine (hl.filter _).imp_of_mem fun {a b} ha hb hne => hne ?_
    have hac : key a = c := by simpa using (List.mem_filter.mp ha).2
    have hbc : key b = c := by simpa using (List.mem_filter.mp hb).2
    rw [hac, hbc]
  have hl' : l'.Pairwise fun a b => key a ≠ key b := (p.pairwise_iff Ne.symm).mp hl
  exact (p.filter _).eq_of_pairwise (fun _ _ _ _ h => h.elim) (hnone hl) (hnone hl')

/-- The supertypes of several classes, class by class. -/
def supertypesOf (ds : List Declared) : List OpenSupertype :=
  ds.flatMap fun d => d.supertypes.map fun t => ⟨d, t⟩

theorem supertypesOf_filter (ds : List Declared) (p : Declared → Bool) :
    supertypesOf (ds.filter p) = ds.flatMap fun d => if p d then d.supertypes.map (⟨d, ·⟩) else [] := by
  induction ds with
  | nil => rfl
  | cons d ds ih =>
    rw [List.flatMap_cons, ← ih, List.filter_cons]
    cases p d with
    | true => exact List.flatMap_cons
    | false => rfl

theorem supertypes_ofSources (sources : List SourceFile) :
    (Pending.ofSources sources).supertypes = supertypesOf (sources.flatMap SourceFile.declared) := by
  show supertypesOf ((sources.flatMap SourceFile.declared).filter _) = _
  rw [supertypesOf_filter, supertypesOf]
  congr 1
  funext d
  cases d.supertypes with
  | nil => rfl
  | cons t ts => rfl

theorem map_bare_supertypesOf (ds : List Declared) :
    (supertypesOf ds).map OpenSupertype.bare = supertypesOf (ds.map Declared.bare) := by
  rw [supertypesOf, supertypesOf, List.map_flatMap, List.flatMap_map]
  simp only [List.map_map]
  rfl

theorem filter_supertypesOf (ds : List Declared) (c : ClassName) :
    (supertypesOf ds).filter (fun o => o.sub.name = c) = supertypesOf (ds.filter fun d => d.name = c) := by
  rw [supertypesOf_filter, supertypesOf, List.filter_flatMap]
  congr 1
  funext d
  rw [List.filter_map]
  by_cases hc : d.name = c
  · simp [Function.comp_def, hc]
  · simp [Function.comp_def, hc]

namespace Registry

variable {r r' : Registry} {sources sources' : List SourceFile}

/-- Reordered sources leave the same supertypes to link. -/
theorem sameOpen_of_reordered {classPath : Registry} (h : Reordered sources sources')
    (hr : classPath.registerSources sources = .ok r) :
    SameOpen (Pending.ofSources sources).supertypes (Pending.ofSources sources').supertypes := by
  have hnames : ((sources.flatMap SourceFile.declared).map Declared.bare).Pairwise
      fun d e => d.name ≠ e.name :=
    List.pairwise_map.mpr (pairwise_name_of_registerSources hr)
  constructor
  · rw [supertypes_ofSources, supertypes_ofSources, map_bare_supertypesOf, map_bare_supertypesOf]
    exact h.declared_perm.flatMap_right _
  · intro c
    rw [supertypes_ofSources, supertypes_ofSources, map_bare_supertypesOf, map_bare_supertypesOf,
      filter_supertypesOf, filter_supertypesOf, filter_eq_of_perm h.declared_perm hnames]

/-- Reordered sources lead to a registry that cannot be told apart. -/
theorem link_reordered {classPath : Registry} (h : Reordered sources sources')
    (hr : classPath.registerSources sources = .ok r) (halike : r.Alike r') :
    (r.link (.ofSources sources)).1.Alike (r'.link (.ofSources sources')).1 := by
  rw [link_fst, link_fst]
  have haliases := linkAliases_alike halike (targets_perm halike h) (pairwise_targets hr)
  exact haliases.linkSupertypes (sameOpen_of_reordered h hr)

end Registry

end ServiceCatalog
