import Mathlib
import ServiceCatalog.Proofs.Providers.Analysis
import ServiceCatalog.Proofs.Source.OrderIndependence
import ServiceCatalog.Source.Pass

/-!
# Registration and scanning agree

What a declaration is called is found out twice.  Registration descends into the classes of a file and hands names and
scopes down; the scan goes level by level, keeps the chain of declarations around each one, and goes outwards from the
name for its scopes.  Both come to the same, declaration by declaration.

* `Registration.run_eq`: what the pass registers, counts and leaves for linking, without its traversal.
* `ClassName.outers_step`: the classes around a class come from one step outwards after the other.
* `Placed.outers_className`: going outwards from a name leads through the declarations around it.
* `SourceFile.declared_perm_placed`: the two traversals list the same declarations, each once.
* `Registration.Agrees`, `Registration.agrees_of_run`: what the two agree on.
-/

namespace ServiceCatalog

/-! ## The pass -/

namespace Registration

variable {s s' : Registration}

/-- What a registration is after further declarations, given the registry they lead to. -/
def after (s : Registration) (classes : List Declared) (aliases : List DeclaredAlias) (r : Registry) : Registration :=
  ⟨r, s.classes + classes.length, s.aliases + aliases.length,
    ⟨s.pending.classes ++ classes.filter fun d => !d.supertypes.isEmpty, s.pending.aliases ++ aliases⟩⟩

theorem after_nil (s : Registration) (r : Registry) : s.after [] [] r = { s with registry := r } := by
  simp [after]

theorem after_after (s : Registration) (classes classes' : List Declared) (aliases aliases' : List DeclaredAlias)
    (r : Registry) :
    (s.after classes aliases r).after classes' aliases' = s.after (classes ++ classes') (aliases ++ aliases') := by
  funext r'
  simp [after, Nat.add_assoc]

theorem addAlias_eq (s : Registration) (a : DeclaredAlias) :
    s.addAlias a = (s.registry.registerDeclaredAlias a).map (s.after [] [a]) := by
  rw [addAlias]
  cases s.registry.registerDeclaredAlias a with
  | error e => rfl
  | ok r => simp [after, Except.map, bind, Except.bind, pure, Except.pure]

theorem addClass_eq (s : Registration) (d : Declared) :
    s.addClass d = (s.registry.registerDeclared d).map (s.after [d] []) := by
  rw [addClass]
  cases s.registry.registerDeclared d with
  | error e => rfl
  | ok r => cases hd : d.supertypes.isEmpty <;>
      simp [after, hd, Except.map, bind, Except.bind, pure, Except.pure]

/-- If each step registers something and notes what, all steps register everything and note all of it. -/
theorem foldlM_eq {α : Type} {visit : Registration → α → Except RegistrationError Registration}
    {register : Registry → α → Except RegistrationError Registry} {classes : α → List Declared}
    {aliases : α → List DeclaredAlias}
    (h : ∀ s x, visit s x = (register s.registry x).map (s.after (classes x) (aliases x))) (l : List α)
    (s : Registration) :
    l.foldlM visit s = (l.foldlM register s.registry).map (s.after (l.flatMap classes) (l.flatMap aliases)) := by
  induction l generalizing s with
  | nil => exact congrArg Except.ok (after_nil s s.registry).symm
  | cons x l ih =>
    rw [List.foldlM_cons, List.foldlM_cons, h, List.flatMap_cons, List.flatMap_cons]
    cases register s.registry x with
    | error e => rfl
    | ok r =>
      rw [← after_after _ _ _ _ _ r]
      exact ih (s.after (classes x) (aliases x) r)

/-- Descending into classes registers those that `declaredIn` lists, in its order. -/
theorem visitClasses_eq (f : SourceFile) (nameOf : String → ClassName) (scopes : List ClassName) (ds : List ClassDecl)
    (s : Registration) : visitClasses f nameOf scopes ds s = (f.declaredIn nameOf scopes ds).foldlM addClass s := by
  fun_induction f.declaredIn nameOf scopes ds generalizing s with
  | case1 => rfl
  | case2 nameOf scopes kind ident annotations supertypes inner span ds name ihInner =>
    rename_i ihRest
    rw [visitClasses, visitClass, List.foldlM_cons, bind_assoc]
    refine congrArg _ (funext fun s₁ => ?_)
    rw [List.foldlM_append, ihInner]
    exact congrArg _ (funext ihRest)

theorem visitFile_eq (s : Registration) (f : SourceFile) :
    s.visitFile f = (s.registry.registerSource f).map (s.after f.declared f.declaredAliases) := by
  rw [visitFile, foldlM_eq addAlias_eq, Registry.registerSource]
  cases f.declaredAliases.foldlM Registry.registerDeclaredAlias s.registry with
  | error e => rfl
  | ok r =>
    refine (visitClasses_eq ..).trans ((foldlM_eq addClass_eq ..).trans ?_)
    have hclasses : f.declaredAliases.flatMap (fun _ => ([] : List Declared)) = [] := by simp
    have haliases : f.declared.flatMap (fun _ => ([] : List DeclaredAlias)) = [] := by simp
    rw [after_after, hclasses, ← SourceFile.declared, haliases, List.flatMap_singleton', List.flatMap_singleton',
      List.nil_append, List.append_nil]
    rfl

/-- The pass registers what the files declare, counts it, and leaves it for linking. -/
theorem run_eq (r : Registry) (sources : List SourceFile) :
    run r sources = (r.registerSources sources).map fun r' =>
      ⟨r', (sources.flatMap SourceFile.declared).length, (sources.flatMap SourceFile.declaredAliases).length,
        .ofSources sources⟩ := by
  rw [run, foldlM_eq visitFile_eq]
  refine congrArg (fun g => Except.map g _) (funext fun r' => ?_)
  simp [start, after, Pending.ofSources]

end Registration

/-! ## The two traversals -/

/-- The classes around a class are found by going outwards as long as there is a class around. -/
theorem ClassName.outers_step (c : ClassName) :
    c.outers = match c.outer? with
      | none => []
      | some o => o :: o.outers := by
  obtain ⟨package, ⟨segments⟩⟩ := c
  rcases segments.eq_nil_or_concat with rfl | ⟨front, last, rfl⟩
  · rfl
  · rw [List.concat_eq_append]
    rcases front.eq_nil_or_concat with rfl | ⟨front, next, rfl⟩
    · rfl
    · have hnested : isNested ⟨package, ⟨front.concat next ++ [last]⟩⟩ = true := by
        simp [isNested, DottedName.size]
      have hparent : DottedName.parent ⟨front.concat next ++ [last]⟩ = ⟨front.concat next⟩ := by
        simp [DottedName.parent]
      rw [outer?, if_pos hnested, hparent]
      exact outers_nested (c := ⟨package, ⟨front.concat next⟩⟩) (by simp) last

namespace Placed

/-- The classes of the declarations around one, innermost first. -/
def around (p : Placed) (package : DottedName) : List ClassName :=
  p.enclosing.inits.tail.reverse.map fun chain => ⟨package, ⟨chain.map fun d => d.name.name⟩⟩

/-- Going outwards from the class of a declaration leads through the classes of the declarations around it. -/
theorem outers_className (p : Placed) (package : DottedName) : (p.className package).outers = p.around package := by
  have hsize : (p.className package).relative.size - 1 = p.enclosing.length := by
    simp [className, path, DottedName.size]
  have hinits : p.enclosing.inits.tail = (List.range p.enclosing.length).map fun i => p.enclosing.take (i + 1) := by
    refine List.ext_getElem (by simp) fun i hi _ => ?_
    simp [List.getElem_tail]
  rw [ClassName.outers, hsize, around, hinits, ← List.map_reverse, List.map_map]
  refine List.map_congr_left fun i hi => ?_
  have hi : i + 1 ≤ p.enclosing.length := Nat.succ_le_of_lt (by simpa using hi)
  simp [className, path, List.take_append_of_le_length, hi, List.map_take]

theorem levels_eq (l : List Placed) : levels l = l ++ levels (l.flatMap inner) := by
  cases l with
  | nil => simp [levels]
  | cons p ps => rw [levels]

/-- The declarations of two forests side by side are those of the one and those of the other. -/
theorem levels_append (l l' : List Placed) : (levels (l ++ l')).Perm (levels l ++ levels l') := by
  induction hn : ClassDecl.forestSize ((l ++ l').map decl) using Nat.strong_induction_on generalizing l l' with
  | h n ih =>
    by_cases hempty : l ++ l' = []
    · obtain ⟨rfl, rfl⟩ := List.append_eq_nil_iff.mp hempty
      simp [levels]
    · have hlt : ClassDecl.forestSize ((l.flatMap inner ++ l'.flatMap inner).map decl) < n := by
        have hpos : 0 < (l ++ l').length := List.length_pos_iff.mpr hempty
        have hnext := ClassDecl.forestSize_nextLevel ((l ++ l').map decl)
        rw [List.length_map] at hnext
        rw [← List.flatMap_append, map_decl_flatMap_inner]
        omega
      have hinner := ih _ hlt (l.flatMap inner) (l'.flatMap inner) rfl
      rw [levels_eq (l ++ l'), levels_eq l, levels_eq l', List.flatMap_append, List.append_assoc, List.append_assoc]
      refine .append_left l ?_
      refine (hinner.append_left l').trans ?_
      exact List.perm_append_comm_assoc ..

theorem levels_cons (p : Placed) (ps : List Placed) :
    (levels (p :: ps)).Perm (p :: (levels p.inner ++ levels ps)) := by
  have hone : levels [p] = p :: levels p.inner := by
    rw [levels_eq, List.flatMap_singleton, List.singleton_append]
  have h := levels_append [p] ps
  rwa [hone] at h

end Placed

namespace SourceFile

variable {f : SourceFile}

/-- What a descent into classes lists is what lies in them at any depth, each as often as it is there. -/
theorem declaredIn_perm {nameOf : String → ClassName} {scopes : List ClassName} {ds : List ClassDecl}
    {enclosing : List ClassDecl} (hname : ∀ x, nameOf x.name.name = Placed.className ⟨enclosing, x⟩ f.packageName)
    (hscopes : ∀ x, (Placed.className ⟨enclosing, x⟩ f.packageName).outers = scopes) :
    (f.declaredIn nameOf scopes ds).Perm ((Placed.levels (ds.map (Placed.mk enclosing))).map f.declaredOf) := by
  fun_induction declaredIn f nameOf scopes ds generalizing enclosing with
  | case1 => simp [Placed.levels]
  | case2 nameOf scopes kind ident annotations supertypes inner span ds name ihInner =>
    rename_i ihRest
    let x : ClassDecl := ⟨kind, ident, annotations, supertypes, inner, span⟩
    have hx : name = Placed.className ⟨enclosing, x⟩ f.packageName := hname x
    have hself : f.declaredOf ⟨enclosing, x⟩ = ⟨f, name, scopes, kind, supertypes⟩ := by
      rw [declaredOf, hscopes, ← hx]
    have hinner := @ihInner (enclosing ++ [x])
      (fun y => by rw [Placed.className_inner, hx])
      (fun y => by
        rw [Placed.className_inner, ClassName.outers_nested (Placed.segments_className_ne_nil _ _), hscopes, hx])
    have hlevels := (Placed.levels_cons ⟨enclosing, x⟩ (ds.map (Placed.mk enclosing))).map f.declaredOf
    rw [List.map_cons, List.map_append, hself] at hlevels
    exact ((hinner.append (ihRest hname hscopes)).cons _).trans hlevels.symm

/-- The classes of a file to register are its declarations in their place, each once. -/
theorem declared_perm_placed (f : SourceFile) : f.declared.Perm (f.placed.map f.declaredOf) :=
  declaredIn_perm (fun _ => rfl) fun _ => rfl

end SourceFile

/-! ## Errors of the mapping -/

namespace Registry

variable {r : Registry}

/-- If adding a declaration fails and it is registered, its annotation cannot be resolved. -/
theorem interfaces_of_addProvider_eq_error {x : Scanned} {m : ProviderMapping} {e : AnalysisError}
    (hx : r.provider x = .ok x.className) (h : r.addProvider m x = .error e) : r.interfaces x = .error e := by
  rw [addProvider, hx] at h
  rw [interfaces]
  cases hfound : x.allReferences with
  | error e' =>
    rw [hfound] at h
    obtain rfl : e' = e := Except.error.inj h
    rfl
  | ok found =>
    rw [hfound] at h
    cases hinterfaces : found.mapM (r.interface x) with
    | error e' =>
      simp only [bind, Except.bind, hinterfaces] at h
      obtain rfl : e' = e := Except.error.inj h
      exact hinterfaces
    | ok interfaces =>
      simp only [bind, Except.bind, hinterfaces] at h
      contradiction

/-- If registered declarations have no mapping, the annotation of one of them cannot be resolved. -/
theorem exists_interfaces_eq_error {scanned : List Scanned} (hs : ∀ x ∈ scanned, r.provider x = .ok x.className)
    {m : ProviderMapping} {e : AnalysisError} (h : scanned.foldlM r.addProvider m = .error e) :
    ∃ x ∈ scanned, r.interfaces x = .error e := by
  induction scanned generalizing m with
  | nil => exact absurd h nofun
  | cons x scanned ih =>
    obtain ⟨hx, hrest⟩ := List.forall_mem_cons.mp hs
    rw [List.foldlM_cons] at h
    cases hadd : r.addProvider m x with
    | error e' =>
      rw [hadd] at h
      obtain rfl : e' = e := Except.error.inj h
      exact ⟨x, List.mem_cons_self .., interfaces_of_addProvider_eq_error hx hadd⟩
    | ok m₁ =>
      rw [hadd] at h
      obtain ⟨y, hy, he⟩ := ih hrest h
      exact ⟨y, List.mem_cons_of_mem _ hy, he⟩

end Registry

/-! ## Identities -/

namespace Registration

variable {r : Registry} {sources : List SourceFile} {s : Registration}

theorem run_eq_ok_iff : run r sources = .ok s ↔
    ∃ r', r.registerSources sources = .ok r' ∧ s = ⟨r', (sources.flatMap SourceFile.declared).length,
      (sources.flatMap SourceFile.declaredAliases).length, .ofSources sources⟩ := by
  rw [run_eq]
  cases r.registerSources sources with
  | error e => simp [Except.map]
  | ok r' => simp [Except.map, eq_comm]

/-- What a run leaves behind says the same as the scan. -/
structure Agrees (r : Registry) (sources : List SourceFile) (s : Registration) : Prop where
  /-- Every class at any depth is found under its package and the chain of names around it. -/
  found : ∀ f ∈ sources, ∀ p ∈ f.placed, s.registry.class? ⟨f.packageName, ⟨p.path⟩⟩ =
    some ⟨⟨f.packageName, ⟨p.path⟩⟩, p.decl.kind.entryKind, .source⟩
  /-- The classes are counted. -/
  classes : s.classes = (sources.flatMap SourceFile.placed).length
  /-- Each class that writes supertypes is left for linking once, with the classes around it. -/
  pending : s.pending.classes.Perm (sources.flatMap fun f =>
    (f.placed.filter fun p => !p.decl.supertypes.isEmpty).map fun p =>
      ⟨f, ⟨f.packageName, ⟨p.path⟩⟩, p.around f.packageName, p.decl.kind, p.decl.supertypes⟩)
  /-- A scanned declaration is registered under the name and with the scopes that the scan computes, and nothing else
  is registered under this name. -/
  scanned : ∀ wanted, ∀ x ∈ scan wanted sources, x.enclosing = x.place.around x.file.packageName ∧
    ⟨x.file, x.className, x.enclosing, x.place.decl.kind, x.place.decl.supertypes⟩ ∈
      sources.flatMap SourceFile.declared ∧
    ∀ d ∈ sources.flatMap SourceFile.declared, d.name = x.className →
      d = ⟨x.file, x.className, x.enclosing, x.place.decl.kind, x.place.decl.supertypes⟩
  /-- The analysis finds the class of each scanned declaration. -/
  provider : ∀ x ∈ scan autoService sources, (s.registry.link s.pending).1.provider x = .ok x.className
  /-- An analysis that fails does so at what an annotation mentions. -/
  error : ∀ e, analyze sources r = .error e →
    ∃ x ∈ scan autoService sources, (s.registry.link s.pending).1.interfaces x = .error e

theorem length_declared (sources : List SourceFile) :
    (sources.flatMap SourceFile.declared).length = (sources.flatMap SourceFile.placed).length := by
  rw [List.length_flatMap, List.length_flatMap]
  refine congrArg List.sum (List.map_congr_left fun f _ => ?_)
  rw [(f.declared_perm_placed).length_eq, List.length_map]

theorem pending_perm (sources : List SourceFile) :
    (Pending.ofSources sources).classes.Perm (sources.flatMap fun f =>
      (f.placed.filter fun p => !p.decl.supertypes.isEmpty).map fun p =>
        ⟨f, ⟨f.packageName, ⟨p.path⟩⟩, p.around f.packageName, p.decl.kind, p.decl.supertypes⟩) := by
  rw [Pending.ofSources, List.filter_flatMap]
  refine List.Perm.flatMap_left _ fun f _ => ?_
  have h := f.declared_perm_placed.filter fun d => !d.supertypes.isEmpty
  rw [List.filter_map] at h
  refine h.trans (.of_eq (List.map_congr_left fun p _ => ?_))
  rw [SourceFile.declaredOf, Placed.outers_className]
  rfl

theorem mem_of_mem_scan {wanted : DottedName} {x : Scanned} (hx : x ∈ scan wanted sources) :
    x.file ∈ sources ∧ x.place ∈ x.file.placed := by
  obtain ⟨f, hf, hx⟩ := List.mem_flatMap.mp hx
  obtain ⟨p, hp, hx⟩ := List.mem_filterMap.mp hx
  obtain ⟨a, -, rfl⟩ := Option.map_eq_some_iff.mp hx
  exact ⟨hf, hp⟩

theorem declaredOf_mem {wanted : DottedName} {x : Scanned} (hx : x ∈ scan wanted sources) :
    x.file.declaredOf x.place ∈ sources.flatMap SourceFile.declared := by
  obtain ⟨hfile, hplace⟩ := mem_of_mem_scan hx
  exact List.mem_flatMap.mpr ⟨x.file, hfile, SourceFile.mem_declared_iff.mpr ⟨x.place, hplace, rfl⟩⟩

/-- A class is registered under its name once. -/
theorem eq_of_name_eq {r' : Registry} (h : r.registerSources sources = .ok r') {d e : Declared}
    (hd : d ∈ sources.flatMap SourceFile.declared) (he : e ∈ sources.flatMap SourceFile.declared)
    (hname : d.name = e.name) : d = e := by
  have hnames : ((sources.flatMap SourceFile.declared).map Declared.name).Nodup :=
    List.pairwise_map.mpr (Registry.pairwise_name_of_registerSources h)
  exact List.inj_on_of_nodup_map hnames hd he hname

/-- Registration and scanning agree wherever registration succeeds; where it fails the analysis fails with it. -/
theorem agrees_of_run (r : Registry) (sources : List SourceFile) :
    (∀ s, run r sources = .ok s → Agrees r sources s) ∧
      ∀ e, run r sources = .error e → analyze sources r = .error (.registration e) := by
  constructor
  · intro s hs
    obtain ⟨r', hr', rfl⟩ := run_eq_ok_iff.mp hs
    have hlink : r.withSources sources = .ok (r'.link (.ofSources sources)).1 :=
      Registry.withSources_eq_ok_iff.mpr ⟨r', hr', rfl⟩
    have hprovider : ∀ x ∈ scan autoService sources,
        (r'.link (.ofSources sources)).1.provider x = .ok x.className :=
      Registry.provider_of_mem_scan hlink
    refine ⟨fun f hf p hp => ?_, length_declared sources, pending_perm sources, fun wanted x hx => ?_, hprovider,
      fun e he => ?_⟩
    · exact Registry.class?_of_registerSources hr' (d := f.declaredOf p)
        (List.mem_flatMap.mpr ⟨f, hf, SourceFile.mem_declared_iff.mpr ⟨p, hp, rfl⟩⟩)
    · exact ⟨x.place.outers_className _, declaredOf_mem hx, fun d hd hname =>
        eq_of_name_eq hr' hd (declaredOf_mem hx) hname⟩
    · rw [analyze, hlink] at he
      exact Registry.exists_interfaces_eq_error hprovider he
  · intro e he
    rw [run_eq] at he
    rw [analyze, Registry.withSources]
    cases hr' : r.registerSources sources with
    | error e' =>
      rw [hr'] at he
      obtain rfl : e' = e := Except.error.inj he
      rfl
    | ok r' =>
      rw [hr'] at he
      contradiction

end Registration

/-! ### A class in a class -/

namespace ClassInClass

/-- The name of a class as a type. -/
def named (name : String) : TypeRef := ⟨.user ⟨[], ⟨⟨name, default⟩, [], default⟩⟩, [], name, default⟩

/-- A class in `Outer` that carries the annotation. -/
def inner : ClassDecl :=
  ⟨.object, ⟨"Inner", default⟩,
    [⟨none, named "AutoService", [⟨none, false, .classLiteral (.name ⟨"Base", default⟩) default, default⟩], default⟩],
    [named "Base"], [], default⟩

/-- A file with the two classes and their supertype. -/
def file : SourceFile :=
  ⟨"T.kt", [], some ⟨[⟨"a", default⟩], default⟩,
    [⟨⟨["com", "google", "auto", "service", "AutoService"].map (⟨·, default⟩), default⟩, false, none, default⟩],
    [⟨.interface, ⟨"Base", default⟩, [], [], [], default⟩,
      ⟨.class, ⟨"Outer", default⟩, [], [named "Base"], [inner], default⟩],
    [], default⟩

/-- The registration of the file. -/
def registration : Registration := (Registration.run .empty [file]).toOption.getD (.start .empty)

theorem run_file : Registration.run .empty [file] = .ok registration := by cbv

/-- Three classes are registered, of which two are left for linking, and the inner one is found by the scan. -/
theorem agrees_file : Registration.Agrees .empty [file] registration ∧ registration.classes = 3 ∧
    (registration.pending.classes.map fun d => (d.name.binary, d.scopes.map ClassName.binary)) =
      [("a.Outer", []), ("a.Outer$Inner", ["a.Outer"])] ∧
    (scan autoService [file]).map (fun x => x.className.binary) = ["a.Outer$Inner"] :=
  ⟨(Registration.agrees_of_run .empty [file]).1 registration run_file, by cbv, by cbv, by cbv⟩

end ClassInClass

end ServiceCatalog
