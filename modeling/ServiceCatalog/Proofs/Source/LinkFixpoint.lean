import Mathlib
import ServiceCatalog.Proofs.Source.Linking
import ServiceCatalog.Proofs.Source.Registration

/-!
# Linking is complete

Every round but the last leaves fewer supertypes than it found, so there are at most as many of them as there
are supertypes, and one more full round would change neither the registry nor what is left.  That is what
makes linking complete: nothing that is left can be resolved in the registry that linking ends with.

* `linkRounds_eq_iterate`: the rounds behind the first one are a bounded number of full rounds, which end in
  a fixpoint of the full round.
* `written_links_perm`: every supertype is linked once or left.
* `link_reaches_fixpoint`: both for a whole linking, with what it counts.
-/

namespace ServiceCatalog

namespace Resolver

variable (ρ : Resolver) (left : List OpenSupertype)

/-- A round links the supertypes that it does not leave. -/
theorem map_written_links : (ρ.links left).map Link.written = left.filter fun o => !ρ.leaves o := by
  induction left with
  | nil => rfl
  | cons o left ih =>
    rw [links, List.filterMap_cons, List.filter_cons, leaves]
    cases ρ.supertype? o with
    | none => exact ih
    | some c => exact congrArg (o :: ·) ih

/-- A round links each supertype once or leaves it. -/
theorem written_round_perm : ((ρ.links left).map Link.written ++ left.filter ρ.leaves).Perm left := by
  rw [map_written_links]
  exact List.perm_append_comm.trans (List.filter_append_perm ρ.leaves left)

end Resolver

namespace Registry

/-! ## Rounds -/

/-- A full round, from a registry and what is left to the next ones. -/
def fullRound (s : Registry × List OpenSupertype) : Registry × List OpenSupertype := s.1.linkRound .full s.2

/-- A full round that leaves everything changes nothing. -/
theorem fullRound_eq_self {r : Registry} {left : List OpenSupertype}
    (h : ¬ (r.linkRound .full left).2.length < left.length) : fullRound (r, left) = (r, left) := by
  have hleft : left.filter (Resolver.mk r .full).leaves = left :=
    List.filter_sublist.eq_of_length_le (Nat.le_of_not_lt h)
  have hedges : (Resolver.mk r .full).edges left = [] := by
    refine List.filterMap_eq_nil_iff.mpr fun o ho => ?_
    have hnone : (Resolver.mk r .full).leaves o = true := List.filter_eq_self.mp hleft o ho
    rw [Option.isNone_iff_eq_none.mp hnone]
    rfl
  show (r.addSupertypes _, left.filter _) = _
  rw [hedges, hleft]
  rfl

/-- The rounds behind the first one are full rounds, no more of them than there are supertypes, and end where a
full round changes nothing. -/
theorem linkRounds_eq_iterate (r : Registry) (left : List OpenSupertype) :
    (∃ n ≤ left.length, r.linkRounds left = fullRound^[n] (r, left)) ∧
      fullRound (r.linkRounds left) = r.linkRounds left := by
  fun_induction r.linkRounds left with
  | case1 r left next hlt ih =>
    obtain ⟨⟨n, hn, heq⟩, hfix⟩ := ih
    refine ⟨⟨n + 1, by omega, ?_⟩, hfix⟩
    rw [Function.iterate_succ_apply, heq]
    rfl
  | case2 r left next hge => exact ⟨⟨0, Nat.zero_le _, rfl⟩, fullRound_eq_self hge⟩

/-- What a fixpoint of the full round leaves resolves to no class there. -/
theorem supertype?_eq_none_of_fixpoint {s : Registry × List OpenSupertype} (h : fullRound s = s)
    {o : OpenSupertype} (ho : o ∈ s.2) : (Resolver.mk s.1 .full).supertype? o = none := by
  have hleft : s.2.filter (Resolver.mk s.1 .full).leaves = s.2 := congrArg Prod.snd h
  exact Option.isNone_iff_eq_none.mp (List.filter_eq_self.mp hleft o ho)

/-! ## Every supertype -/

theorem written_laterLinks_perm (r : Registry) (left : List OpenSupertype) :
    ((r.laterLinks left).map Link.written ++ (r.linkRounds left).2).Perm left := by
  fun_induction r.linkRounds left with
  | case1 r left next hlt ih =>
    rw [laterLinks, if_pos hlt, List.map_append, List.append_assoc]
    exact (ih.append_left _).trans (Resolver.written_round_perm _ left)
  | case2 r left next hge =>
    rw [laterLinks, if_neg hge]
    exact .refl _

/-- The rounds link each supertype once or leave it. -/
theorem written_links_perm (r : Registry) (left : List OpenSupertype) :
    ((r.links left).map Link.written ++ (r.linkSupertypes left).2).Perm left := by
  rw [links, List.map_append, List.append_assoc]
  exact ((written_laterLinks_perm _ _).append_left _).trans (Resolver.written_round_perm _ left)

/-! ## Every type alias -/

/-- Whether all type aliases of a list are registered. -/
def HasAliases (r : Registry) (aliases : List DeclaredAlias) : Prop :=
  ∀ a ∈ aliases, (r.alias? a.name).isSome

theorem isSome_alias?_linkTarget (r : Registry) (t : DottedName × DottedName) (n : DottedName) :
    ((r.linkTarget t).alias? n).isSome = (r.alias? n).isSome := by
  rw [alias?_linkTarget]
  split
  · exact Option.isSome_map
  · rfl

/-- All targets of registered type aliases are linked. -/
theorem linkAliases_snd {r : Registry} {targets : List (DottedName × DottedName)}
    (h : ∀ t ∈ targets, (r.alias? t.1).isSome) : (r.linkAliases targets).2 = targets.length := by
  rw [linkAliases, ← Nat.zero_add targets.length]
  -- the count goes on from any number
  generalize 0 = n
  induction targets generalizing r n with
  | nil => rfl
  | cons t targets ih =>
    obtain ⟨ht, hrest⟩ := List.forall_mem_cons.mp h
    obtain ⟨e, he⟩ := Option.isSome_iff_exists.mp ht
    obtain ⟨r', hr'⟩ : ∃ r', r.linkAlias? t.1 t.2 = some r' := ⟨_, by rw [linkAlias?, he]; rfl⟩
    have hlinked : r.linkTarget t = r' := by rw [linkTarget, hr']; rfl
    have hrest' : ∀ u ∈ targets, (r'.alias? u.1).isSome := fun u hu => by
      rw [← hlinked, isSome_alias?_linkTarget]
      exact hrest u hu
    rw [List.foldl_cons, hr', List.length_cons, Nat.add_comm targets.length, ← Nat.add_assoc]
    exact ih hrest' (n + 1)

/-- Whether linking finds the target of a type alias. -/
def findsTarget (r : Registry) (a : DeclaredAlias) : Bool := ((Resolver.mk r .linking).aliasTarget? a).isSome

theorem length_targets (r : Registry) (pending : Pending) :
    (r.targets pending).length = (pending.aliases.filter r.findsTarget).length := by
  rw [targets]
  induction pending.aliases with
  | nil => rfl
  | cons a aliases ih =>
    rw [List.filterMap_cons, List.filter_cons, findsTarget]
    cases (Resolver.mk r .linking).aliasTarget? a with
    | none => exact ih
    | some t => exact congrArg (· + 1) ih

/-- What is stored later replaces no type alias by nothing. -/
theorem isSome_alias?_putAll {r : Registry} {n : DottedName} (h : (r.alias? n).isSome)
    (l : List (DeclaredAlias ⊕ Declared)) : ((r.putAll l).alias? n).isSome := by
  induction l generalizing r with
  | nil => exact h
  | cons x l ih =>
    refine ih (r := r.put x) ?_
    cases x with
    | inl a =>
      rw [put, alias?_putAlias]
      split
      · rfl
      · exact h
    | inr d => rwa [put, alias?_putClass]

/-- Registration guarantees that the type aliases of the sources are registered. -/
theorem hasAliases_of_registerSources {classPath r : Registry} {sources : List SourceFile}
    (h : classPath.registerSources sources = .ok r) : r.HasAliases (Pending.ofSources sources).aliases := by
  rw [registerSources_eq_foldlM] at h
  obtain ⟨-, -, rfl⟩ := foldlM_register_eq_ok_iff.mp h
  intro a ha
  obtain ⟨f, hf, ha⟩ := List.mem_flatMap.mp ha
  have hmem : .inl a ∈ sources.flatMap SourceFile.entries :=
    List.mem_flatMap.mpr ⟨f, hf, List.mem_append_left _ (List.mem_map_of_mem ha)⟩
  obtain ⟨front, behind, hsplit⟩ := List.append_of_mem hmem
  rw [hsplit, putAll, List.foldl_append, List.foldl_cons]
  refine isSome_alias?_putAll ?_ behind
  have hstored : ((front.foldl put classPath).putAlias a.entry).alias? a.name = some a.entry :=
    (alias?_putAlias _ a.entry a.name).trans (if_pos rfl)
  exact hstored ▸ rfl

/-! ## The whole pass -/

/-- Linking ends with a registry and supertypes that are left, after no more full rounds than there are
supertypes, and another full round would change neither.  Each supertype is linked once, which declares it, or
left, and what is left cannot be resolved in the end.  The counts say how many type aliases and supertypes were
linked and how many were not, so they add up to all of them. -/
theorem link_reaches_fixpoint (r : Registry) (pending : Pending) :
    let final := (r.link pending).1
    let counts := (r.link pending).2
    let linked := r.linkTrace pending
    let unfound := pending.aliases.filter fun a => !r.findsTarget a
    let first := (r.linkAliases (r.targets pending)).1.linkRound .linking pending.supertypes
    ∃ left : List OpenSupertype,
      (∃ n ≤ pending.supertypes.length, (final, left) = fullRound^[n] first) ∧
      fullRound (final, left) = (final, left) ∧
      (linked.map Link.written ++ left).Perm pending.supertypes ∧
      final.hierarchy = r.hierarchy.addAll (linked.map Link.edge) ∧
      (∀ o ∈ left, (Resolver.mk final .full).supertype? o = none) ∧
      counts.supertypes = linked.length ∧
      counts.unresolved = unfound.length + left.length ∧
      (r.HasAliases pending.aliases →
        counts.aliases = (pending.aliases.filter r.findsTarget).length ∧
        counts.aliases + counts.supertypes + counts.unresolved =
          pending.aliases.length + pending.supertypes.length) := by
  intro final counts linked unfound first
  obtain ⟨⟨n, hn, hrounds⟩, hfix⟩ := linkRounds_eq_iterate first.1 first.2
  have hperm : (linked.map Link.written ++ (first.1.linkRounds first.2).2).Perm pending.supertypes :=
    written_links_perm _ _
  have hlength := hperm.length_eq
  rw [List.length_append, List.length_map] at hlength
  have hsupertypes : counts.supertypes =
      pending.supertypes.length - (first.1.linkRounds first.2).2.length := rfl
  have hunresolved : counts.unresolved =
      pending.aliases.length - (r.targets pending).length + (first.1.linkRounds first.2).2.length := rfl
  have haliases : (pending.aliases.filter r.findsTarget).length + unfound.length = pending.aliases.length :=
    List.length_eq_length_filter_add r.findsTarget |>.symm
  rw [length_targets] at hunresolved
  have hbound : n ≤ pending.supertypes.length := Nat.le_trans hn (length_linkRound_le _ .linking _)
  refine ⟨(first.1.linkRounds first.2).2, ⟨n, hbound, hrounds⟩, hfix, hperm, hierarchy_link r pending,
    fun o ho => supertype?_eq_none_of_fixpoint hfix ho, by omega, by omega, fun hregistered => ?_⟩
  have htargets : ∀ t ∈ r.targets pending, (r.alias? t.1).isSome := by
    intro t ht
    obtain ⟨a, ha, hat⟩ := List.mem_filterMap.mp ht
    obtain ⟨u, -, rfl⟩ := Option.map_eq_some_iff.mp hat
    exact hregistered a ha
  have hcount : counts.aliases = (pending.aliases.filter r.findsTarget).length := by
    rw [← length_targets]
    exact linkAliases_snd htargets
  exact ⟨hcount, by omega⟩

end Registry

/-! ## A supertype that is linked late, and one that is not -/

namespace LinkedLate

/-- A type that is written with a simple name. -/
def typeNamed (name : String) : TypeRef := ⟨.user ⟨[], ⟨⟨name, default⟩, [], default⟩⟩, [], name, default⟩

/-- A class with its supertypes and the classes inside it. -/
def decl (name : String) (supertypes : List TypeRef) (inner : List ClassDecl) : ClassDecl :=
  ⟨.class, ⟨name, default⟩, [], supertypes, inner, default⟩

/-- A file in which `Item` extends an `Entry` that the class around it inherits through a type alias, and a
class that is nowhere declared. -/
def file : SourceFile :=
  ⟨"T.kt", [], none, [],
    [decl "Base" [] [decl "Entry" [] []],
      decl "Outer" [typeNamed "Parent"] [decl "Item" [typeNamed "Entry", typeNamed "Missing"] []]],
    [⟨⟨"Parent", default⟩, [], typeNamed "Base", default⟩], default⟩

/-- What the file leaves for linking. -/
def pending : Pending := .ofSources [file]

/-- The registry with the declarations of the file, before linking. -/
def registered : Registry := (Registry.empty.registerSources [file]).toOption.getD .empty

theorem registerSources_file : Registry.empty.registerSources [file] = .ok registered := by cbv

/-- The type alias and two of the three supertypes are linked, the other supertype is left. -/
theorem counts_link_registered :
    registered.HasAliases pending.aliases ∧ (registered.link pending).2 = ⟨1, 2, 1⟩ ∧
      ∃ left : List OpenSupertype,
        (((registered.linkTrace pending).map Link.written) ++ left).Perm pending.supertypes ∧
        (∀ o ∈ left, (Resolver.mk (registered.link pending).1 .full).supertype? o = none) ∧
        (registered.link pending).2.aliases + (registered.link pending).2.supertypes +
          (registered.link pending).2.unresolved = pending.aliases.length + pending.supertypes.length := by
  have haliases : registered.HasAliases pending.aliases :=
    Registry.hasAliases_of_registerSources registerSources_file
  obtain ⟨left, -, -, hperm, -, hleft, -, -, hcounts⟩ := registered.link_reaches_fixpoint pending
  exact ⟨haliases, by cbv, left, hperm, hleft, (hcounts haliases).2⟩

end LinkedLate

end ServiceCatalog
