import Mathlib
import ServiceCatalog.Proofs.Source.OrderIndependence
import ServiceCatalog.Registry.Platform

/-!
# The supertypes of a class that replaces another one

An entry of the registry replaces an earlier one of the same class, but the supertypes that were declared for
the class stay.  So a class of the sources has the supertypes that the class path declares for a class of its
name, and behind them those of its own that are not among them; and so has a class of a class file.

* `direct_link`: the supertypes of a class after linking.
* `direct_registerFile`: the supertypes of a class after its class file was registered.
* `direct_of_replaced`: both, with the exact condition under which the replaced class does not show.
* `direct_replaced_thread`: a class without supertypes that has those of the class it replaces.
-/

namespace ServiceCatalog

/-- The elements that a second function is needed for come last when each element is put with what the first
function makes of it. -/
theorem filterMap_or_perm {α β : Type} (f g : α → Option β) (l : List α) :
    (l.filterMap f ++ (l.filter fun a => (f a).isNone).filterMap g).Perm
      (l.filterMap fun a => (f a).or (g a)) := by
  induction l with
  | nil => exact .refl _
  | cons a l ih =>
    rw [List.filterMap_cons, List.filter_cons, List.filterMap_cons]
    cases f a with
    | some b => exact ih.cons b
    | none =>
      show (l.filterMap f ++ (a :: l.filter _).filterMap g).Perm _
      rw [List.filterMap_cons, Option.none_or]
      cases g a with
      | none => exact ih
      | some b => exact List.perm_middle.trans (ih.cons b)

/-- A supertype with the class that it was linked to. -/
def Link.pair (l : Link) : OpenSupertype × ClassName := (l.written, l.target)

theorem Resolver.map_pair_links (ρ : Resolver) (left : List OpenSupertype) :
    (ρ.links left).map Link.pair = left.filterMap fun o => (ρ.supertype? o).map (Prod.mk o) := by
  rw [links, List.map_filterMap]
  simp only [Option.map_map]
  rfl

namespace Registry

/-! ## The class that a supertype is linked to -/

/-- The class that the rounds behind the first one link a supertype to. -/
def laterSupertype? (r : Registry) (left : List OpenSupertype) (o : OpenSupertype) : Option ClassName :=
  let next := r.linkRound .full left
  if next.2.length < left.length then
    ((Resolver.mk r .full).supertype? o).or (next.1.laterSupertype? next.2 o)
  else none
termination_by left.length

/-- The class that the rounds link a supertype to. -/
def firstSupertype? (r : Registry) (left : List OpenSupertype) (o : OpenSupertype) : Option ClassName :=
  let first := r.linkRound .linking left
  ((Resolver.mk r .linking).supertype? o).or (first.1.laterSupertype? first.2 o)

/-- The class that linking links a supertype to. -/
def linkedSupertype? (r : Registry) (pending : Pending) (o : OpenSupertype) : Option ClassName :=
  (r.linkAliases (r.targets pending)).1.firstSupertype? pending.supertypes o

/-- A round links what it resolves, and the rounds behind it what it leaves. -/
theorem pairs_round_perm (ρ : Resolver) (left : List OpenSupertype) (later : OpenSupertype → Option ClassName) :
    ((ρ.links left).map Link.pair ++
        (left.filter ρ.leaves).filterMap fun o => (later o).map (Prod.mk o)).Perm
      (left.filterMap fun o => ((ρ.supertype? o).or (later o)).map (Prod.mk o)) := by
  have hleaves : ρ.leaves = fun o => ((ρ.supertype? o).map (Prod.mk o)).isNone := by
    funext o
    exact Option.isNone_map.symm
  rw [ρ.map_pair_links, hleaves]
  simp only [Option.map_or]
  exact filterMap_or_perm _ _ left

theorem pairs_laterLinks_perm (r : Registry) (left : List OpenSupertype) :
    ((r.laterLinks left).map Link.pair).Perm
      (left.filterMap fun o => (r.laterSupertype? left o).map (Prod.mk o)) := by
  fun_induction r.linkRounds left with
  | case1 r left next hlt ih =>
    have hlater : r.laterSupertype? left = fun o =>
        ((Resolver.mk r .full).supertype? o).or (next.1.laterSupertype? next.2 o) := by
      funext o
      rw [laterSupertype?]
      exact if_pos hlt
    rw [laterLinks, if_pos hlt, List.map_append, hlater]
    exact (ih.append_left _).trans (pairs_round_perm _ left _)
  | case2 r left next hge =>
    have hlater : r.laterSupertype? left = fun _ => none := by
      funext o
      rw [laterSupertype?]
      exact if_neg hge
    rw [laterLinks, if_neg hge, hlater]
    simp

/-- The links of the rounds are the supertypes that they link, with the classes they link them to. -/
theorem pairs_links_perm (r : Registry) (left : List OpenSupertype) :
    ((r.links left).map Link.pair).Perm
      (left.filterMap fun o => (r.firstSupertype? left o).map (Prod.mk o)) := by
  rw [links, List.map_append]
  exact ((pairs_laterLinks_perm _ _).append_left _).trans (pairs_round_perm _ left _)

/-! ## The supertypes of one class -/

/-- The classes that the supertypes of a class were linked to, in the order of the links. -/
def linkedOf (r : Registry) (pending : Pending) (c : ClassName) : List ClassName :=
  ((r.linkTrace pending).filter fun l => l.written.sub.name = c).map Link.target

/-- The classes that the supertypes of a declaration were linked to, in the order in which they are written. -/
def writtenOf (r : Registry) (pending : Pending) (d : Declared) : List ClassName :=
  d.supertypes.filterMap fun t => r.linkedSupertype? pending ⟨d, t⟩

/-- Behind the supertypes that a class had before linking come those that linking found for it. -/
theorem direct_link (r : Registry) (pending : Pending) (c : ClassName) :
    (r.link pending).1.hierarchy.direct c = r.hierarchy.direct c ++
      Hierarchy.without (Hierarchy.distinct c (r.linkedOf pending c)) (r.hierarchy.direct c) := by
  rw [hierarchy_link, Hierarchy.direct_addAll_eq_append, List.filter_map, List.map_map]
  rfl

/-- The supertypes of registered classes that are to be linked for a name are those of the class of the name. -/
theorem filter_supertypes_of_declared {classPath r : Registry} {sources : List SourceFile}
    (h : classPath.registerSources sources = .ok r) {d : Declared}
    (hd : d ∈ sources.flatMap SourceFile.declared) :
    (Pending.ofSources sources).supertypes.filter (fun o => o.sub.name = d.name) =
      d.supertypes.map fun t => ⟨d, t⟩ := by
  have hone : (sources.flatMap SourceFile.declared).filter (fun e => e.name = d.name) = [d] := by
    obtain ⟨front, behind, hsplit⟩ := List.append_of_mem hd
    have hpair := pairwise_name_of_registerSources h
    rw [hsplit, List.pairwise_append] at hpair
    obtain ⟨-, hbehind, hfront⟩ := hpair
    rw [hsplit, List.filter_append, List.filter_cons_of_pos (by simp)]
    have hnil : front.filter (fun e => e.name = d.name) = [] :=
      List.filter_eq_nil_iff.mpr fun e he => by simpa using hfront e he d (List.mem_cons_self ..)
    have hnil' : behind.filter (fun e => e.name = d.name) = [] :=
      List.filter_eq_nil_iff.mpr fun e he => by
        simpa using ((List.pairwise_cons.mp hbehind).1 e he).symm
    rw [hnil, hnil', List.nil_append]
  rw [supertypes_ofSources, filter_supertypesOf, hone, supertypesOf, List.flatMap_cons, List.flatMap_nil,
    List.append_nil]

/-- The two orders hold the same classes. -/
theorem linkedOf_perm_writtenOf {classPath r : Registry} {sources : List SourceFile}
    (h : classPath.registerSources sources = .ok r) {d : Declared}
    (hd : d ∈ sources.flatMap SourceFile.declared) :
    (r.linkedOf (.ofSources sources) d.name).Perm (r.writtenOf (.ofSources sources) d) := by
  have hpairs := ((pairs_links_perm (r.linkAliases (r.targets (.ofSources sources))).1
    (Pending.ofSources sources).supertypes).filter fun p => p.1.sub.name = d.name).map Prod.snd
  rw [List.filter_map, List.map_map, List.filter_filterMap, List.map_filterMap] at hpairs
  refine hpairs.trans (.of_eq ?_)
  calc
    _ = (Pending.ofSources sources).supertypes.filterMap fun o =>
          if decide (o.sub.name = d.name) then r.linkedSupertype? (.ofSources sources) o else none := by
      congr 1
      funext o
      show ((((r.linkedSupertype? (.ofSources sources) o).map (Prod.mk o)).filter _).map Prod.snd) = _
      cases r.linkedSupertype? (.ofSources sources) o with
      | none => simp
      | some c => by_cases ho : o.sub.name = d.name <;> simp [ho]
    _ = ((Pending.ofSources sources).supertypes.filter fun o => o.sub.name = d.name).filterMap
          (r.linkedSupertype? (.ofSources sources)) := List.filterMap_filter.symm
    _ = r.writtenOf (.ofSources sources) d := by
      rw [filter_supertypes_of_declared h hd, List.filterMap_map]
      rfl

/-! ## Class files -/

/-- Registering the class file of a new class declares the supertypes that the file names. -/
theorem hierarchy_registerFile {r : Registry} {f : ClassFile} {c : ClassName} (h : r.newClass? f = some c) :
    (r.registerFile f).2.hierarchy =
      r.hierarchy.addAll ((f.supertypes.filterMap ClassName.ofInternal?).map (Prod.mk c)) := by
  have hadd : (f.supertypes.filterMap ClassName.ofInternal?).foldl (fun r super => r.addSupertype c super) r =
      r.addSupertypes ((f.supertypes.filterMap ClassName.ofInternal?).map (Prod.mk c)) := by
    rw [addSupertypes, List.foldl_map]
  have hput : ∀ (r r' : Registry) (e : ClassEntry), r.registerClass e = .ok r' →
      r'.hierarchy = r.hierarchy := by
    intro r r' e he
    rw [registerClass] at he
    split at he
    · cases he
    · exact Except.ok.inj he ▸ rfl
    · exact Except.ok.inj he ▸ rfl
  rw [registerFile, h]
  dsimp only
  rw [hadd, addSupertypes_eq]
  split
  · rename_i r' he
    exact hput _ r' _ he
  · rfl

/-- Behind the supertypes that the class of a class file had before come those that the file names. -/
theorem direct_registerFile {r : Registry} {f : ClassFile} {c : ClassName} (h : r.newClass? f = some c) :
    (r.registerFile f).2.hierarchy.direct c = r.hierarchy.direct c ++
      Hierarchy.without (Hierarchy.distinct c (f.supertypes.filterMap ClassName.ofInternal?))
        (r.hierarchy.direct c) := by
  have hown : ((f.supertypes.filterMap ClassName.ofInternal?).map (Prod.mk c)).filter (fun e => e.1 = c) =
      (f.supertypes.filterMap ClassName.ofInternal?).map (Prod.mk c) :=
    List.filter_eq_self.mpr fun e he => by
      obtain ⟨super, -, rfl⟩ := List.mem_map.mp he
      simp
  rw [hierarchy_registerFile h, Hierarchy.direct_addAll_eq_append, hown, List.map_map]
  simp only [Function.comp_def, List.map_id']

/-! ## Replaced classes -/

open Hierarchy in
/-- What the class path declares for a class stays in front of what the sources or a class file declare for
it.  Its supertypes are its own, in the order in which they are written, exactly if what the class path
declares are the first of them and the others were linked in that order. -/
theorem direct_of_replaced (classPath : Registry) :
    (∀ (sources : List SourceFile) (r : Registry), classPath.registerSources sources = .ok r →
      ∀ d ∈ sources.flatMap SourceFile.declared,
        let pending := Pending.ofSources sources
        let replaced := classPath.hierarchy.direct d.name
        let linked := distinct d.name (r.linkedOf pending d.name)
        let own := distinct d.name (r.writtenOf pending d)
        let direct := (r.link pending).1.hierarchy.direct d.name
        (r.linkedOf pending d.name).Perm (r.writtenOf pending d) ∧
          direct = replaced ++ without linked replaced ∧
          (direct = own ↔ replaced <+: own ∧ without linked replaced = without own replaced)) ∧
      ∀ (f : ClassFile) (c : ClassName), classPath.newClass? f = some c →
        let replaced := classPath.hierarchy.direct c
        let own := distinct c (f.supertypes.filterMap ClassName.ofInternal?)
        let direct := (classPath.registerFile f).2.hierarchy.direct c
        direct = replaced ++ without own replaced ∧ (direct = own ↔ replaced <+: own) := by
  constructor
  · intro sources r h d hd pending replaced linked own direct
    have hdirect : direct = replaced ++ without linked replaced := by
      have hbefore : r.hierarchy.direct d.name = replaced := by rw [hierarchy_of_registerSources h]
      show (r.link pending).1.hierarchy.direct d.name = _
      rw [direct_link, hbefore]
    refine ⟨linkedOf_perm_writtenOf h hd, hdirect, ?_⟩
    rw [hdirect]
    exact append_without_eq_iff (nodup_distinct ..)
  · intro f c h replaced own direct
    have hdirect : direct = replaced ++ without own replaced := direct_registerFile h
    refine ⟨hdirect, ?_⟩
    rw [hdirect, append_without_eq_iff (nodup_distinct ..)]
    exact and_iff_left rfl

end Registry

/-! ## A class that inherits from the one it replaces -/

namespace ReplacedClass

/-- A class path with one class file, of a class that extends another one. -/
def classPath : Registry := (Registry.empty.registerFile ⟨0, "a/Impl", some "a/Base", [], [], []⟩).2

/-- A file that declares a class of the same name without supertypes. -/
def file : SourceFile :=
  ⟨"T.kt", [], some ⟨[⟨"a", default⟩], default⟩, [],
    [⟨.class, ⟨"Impl", default⟩, [], [], [], default⟩], [], default⟩

/-- The class of the file. -/
def impl : Declared := ⟨file, .topLevel (.ofText "a") "Impl", [], .class, []⟩

/-- The class path with the class of the file, before linking. -/
def registered : Registry := (classPath.registerSources [file]).toOption.getD .empty

theorem registerSources_file : classPath.registerSources [file] = .ok registered := by cbv

theorem mem_declared : impl ∈ [file].flatMap SourceFile.declared := by
  have hdeclared : [file].flatMap SourceFile.declared = [impl] := by cbv
  exact hdeclared ▸ List.mem_singleton_self _

/-- The class writes no supertypes, but it has that of the class file. -/
theorem direct_of_replaced_impl :
    classPath.registerSources [file] = .ok registered ∧ impl ∈ [file].flatMap SourceFile.declared ∧
      impl.supertypes = [] ∧
      (registered.link (.ofSources [file])).1.hierarchy.direct impl.name =
        [.topLevel (.ofText "a") "Base"] :=
  ⟨registerSources_file, mem_declared, rfl, by cbv⟩

/-- The supertypes of the class are not its own, for what the class path declares does not begin them. -/
theorem direct_ne_own_impl :
    classPath.registerSources [file] = .ok registered ∧ impl ∈ [file].flatMap SourceFile.declared ∧
      (registered.link (.ofSources [file])).1.hierarchy.direct impl.name ≠
        Hierarchy.distinct impl.name (registered.writtenOf (.ofSources [file]) impl) := by
  obtain ⟨-, -, howned⟩ :=
    (Registry.direct_of_replaced classPath).1 [file] registered registerSources_file impl mem_declared
  refine ⟨registerSources_file, mem_declared, fun heq => ?_⟩
  have hprefix := (howned.mp heq).1
  have hreplaced : classPath.hierarchy.direct impl.name = [.topLevel (.ofText "a") "Base"] := by
    decide +kernel
  have hown : registered.writtenOf (.ofSources [file]) impl = [] := rfl
  rw [hreplaced, hown] at hprefix
  exact absurd hprefix (by decide)

end ReplacedClass

end ServiceCatalog
