import ServiceCatalog.Proofs.Providers.Arguments
import ServiceCatalog.Proofs.Providers.Mapping
import ServiceCatalog.Proofs.Source.Linking
import ServiceCatalog.Proofs.Source.Placed
import ServiceCatalog.Proofs.Source.Registration

/-!
# The mapping of an analysis

An analysis yields all providers or none.  It succeeds exactly if the declarations can be registered and
everything that the annotations mention denotes a class, and its mapping holds a pair for each mention and
no other pair.

* `Registry.Denotes`: what a mention in the annotation of a declaration stands for.
* `Registry.interfaces`: what the annotation of a declaration is resolved to.
* `Registry.exists_providers_iff`, `Registry.mem_pairs_of_providers`: the mapping of scanned declarations.
* `analyze_spec`: the mapping of sources.
-/

namespace ServiceCatalog

namespace Registry

variable {r : Registry}

/-- Whether a reference in the annotation of a declaration denotes a class. -/
def Denotes (r : Registry) (s : Scanned) (reference : Reference) (e : ClassEntry) : Prop :=
  ∃ name, (Resolver.mk r .full).resolve s.context reference = .ok name ∧ r.classifier? name = some e

theorem interface_eq_ok_iff {s : Scanned} {reference : Reference} {c : ClassName} :
    r.interface s reference = .ok c ↔ ∃ e, r.Denotes s reference e ∧ e.name = c := by
  rw [interface, bind_eq_ok_iff]
  constructor
  · rintro ⟨name, hname, h⟩
    cases hc : r.classifier? name with
    | none =>
      rw [hc] at h
      exact absurd h nofun
    | some e =>
      rw [hc] at h
      exact ⟨e, ⟨name, hname, hc⟩, Except.ok.inj h⟩
  · rintro ⟨e, ⟨name, hname, hc⟩, rfl⟩
    refine ⟨name, hname, ?_⟩
    rw [hc]
    rfl

/-- Whether the annotation of a declaration is accepted and all that it mentions denotes classes. -/
structure Registers (r : Registry) (s : Scanned) : Prop where
  isAccepted : s.IsAccepted
  denotes : ∀ reference, s.Mentions reference → ∃ e, r.Denotes s reference e

/-- The pairs that the annotation of a declaration stands for. -/
def HasPair (r : Registry) (s : Scanned) (x : String × String) : Prop :=
  ∃ reference e, s.Mentions reference ∧ r.Denotes s reference e ∧ x = (e.name.binary, s.className.binary)

/-- The classes that the annotation of a declaration is resolved to, in order. -/
def interfaces (r : Registry) (s : Scanned) : Except AnalysisError (List ClassName) := do
  (← s.allReferences).mapM (r.interface s)

theorem interfaces_eq_ok_iff {s : Scanned} {interfaces : List ClassName} :
    r.interfaces s = .ok interfaces ↔
      ∃ found, s.allReferences = .ok found ∧ found.mapM (r.interface s) = .ok interfaces := bind_eq_ok_iff

/-- An annotation is resolved exactly if it registers something. -/
theorem exists_interfaces_iff {s : Scanned} : (∃ interfaces, r.interfaces s = .ok interfaces) ↔ r.Registers s := by
  constructor
  · rintro ⟨interfaces, h⟩
    obtain ⟨found, hfound, hinterfaces⟩ := interfaces_eq_ok_iff.mp h
    refine ⟨Scanned.exists_allReferences_iff.mp ⟨found, hfound⟩, fun reference hmention => ?_⟩
    have hmem : reference ∈ found := (Scanned.mem_allReferences hfound).mpr hmention
    obtain ⟨c, hc⟩ := exists_mapM_eq_ok_iff.mp ⟨interfaces, hinterfaces⟩ reference hmem
    obtain ⟨e, he, -⟩ := interface_eq_ok_iff.mp hc
    exact ⟨e, he⟩
  · rintro ⟨haccepted, hdenotes⟩
    obtain ⟨found, hfound⟩ := Scanned.exists_allReferences_iff.mpr haccepted
    have hall : ∀ reference ∈ found, ∃ c, r.interface s reference = .ok c := by
      intro reference hmem
      obtain ⟨e, he⟩ := hdenotes reference ((Scanned.mem_allReferences hfound).mp hmem)
      exact ⟨e.name, interface_eq_ok_iff.mpr ⟨e, he, rfl⟩⟩
    obtain ⟨interfaces, hinterfaces⟩ := exists_mapM_eq_ok_iff.mpr hall
    exact ⟨interfaces, interfaces_eq_ok_iff.mpr ⟨found, hfound, hinterfaces⟩⟩

/-- An annotation is resolved to what its mentions denote. -/
theorem mem_of_interfaces {s : Scanned} {interfaces : List ClassName} (h : r.interfaces s = .ok interfaces)
    {c : ClassName} :
    c ∈ interfaces ↔ ∃ reference e, s.Mentions reference ∧ r.Denotes s reference e ∧ e.name = c := by
  obtain ⟨found, hfound, hinterfaces⟩ := interfaces_eq_ok_iff.mp h
  rw [mem_of_mapM_eq_ok hinterfaces]
  simp only [Scanned.mem_allReferences hfound, interface_eq_ok_iff, exists_and_left]

/-! ## One declaration -/

section Declaration

variable {s : Scanned} (hs : r.provider s = .ok s.className) {m m' : ProviderMapping}

include hs

theorem addProvider_eq_ok_iff :
    r.addProvider m s = .ok m' ↔ ∃ interfaces, r.interfaces s = .ok interfaces ∧
      interfaces.foldl (fun m i => m.insert i.binary s.className.binary) m = m' := by
  rw [addProvider, hs]
  simp only [interfaces, bind_eq_ok_iff, pure, Except.pure, Except.ok.injEq, exists_eq_left']
  constructor
  · rintro ⟨found, hfound, interfaces, hinterfaces, h⟩
    exact ⟨interfaces, ⟨found, hfound, hinterfaces⟩, h⟩
  · rintro ⟨interfaces, ⟨found, hfound, hinterfaces⟩, h⟩
    exact ⟨found, hfound, interfaces, hinterfaces, h⟩

/-- A declaration can be added exactly if it registers something. -/
theorem exists_addProvider_iff (m : ProviderMapping) : (∃ m', r.addProvider m s = .ok m') ↔ r.Registers s := by
  rw [← exists_interfaces_iff]
  simp only [addProvider_eq_ok_iff hs]
  exact ⟨fun ⟨_, interfaces, h, _⟩ => ⟨interfaces, h⟩, fun ⟨interfaces, h⟩ => ⟨_, interfaces, h, rfl⟩⟩

theorem ordered_of_addProvider (h : r.addProvider m s = .ok m') (hm : m.Ordered) : m'.Ordered := by
  obtain ⟨interfaces, -, rfl⟩ := (addProvider_eq_ok_iff hs).mp h
  exact hm.foldl_insert interfaces fun i => (i.binary, s.className.binary)

/-- Adding a declaration adds its pairs. -/
theorem mem_pairs_of_addProvider (h : r.addProvider m s = .ok m') (x : String × String) :
    x ∈ m'.pairs ↔ x ∈ m.pairs ∨ r.HasPair s x := by
  obtain ⟨interfaces, hinterfaces, rfl⟩ := (addProvider_eq_ok_iff hs).mp h
  rw [ProviderMapping.mem_pairs_foldl_insert (f := fun i : ClassName => (i.binary, s.className.binary))]
  refine or_congr_right ⟨?_, ?_⟩
  · rintro ⟨c, hc, rfl⟩
    obtain ⟨reference, e, hmention, he, rfl⟩ := (mem_of_interfaces hinterfaces).mp hc
    exact ⟨reference, e, hmention, he, rfl⟩
  · rintro ⟨reference, e, hmention, he, rfl⟩
    exact ⟨e.name, (mem_of_interfaces hinterfaces).mpr ⟨reference, e, hmention, he, rfl⟩, rfl⟩

end Declaration

/-! ## All declarations -/

section Declarations

variable {scanned : List Scanned} (hs : ∀ s ∈ scanned, r.provider s = .ok s.className)

include hs

theorem exists_foldlM_addProvider_iff (m : ProviderMapping) :
    (∃ m', scanned.foldlM r.addProvider m = .ok m') ↔ ∀ s ∈ scanned, r.Registers s := by
  induction scanned generalizing m with
  | nil => exact ⟨fun _ _ hs => absurd hs List.not_mem_nil, fun _ => ⟨m, rfl⟩⟩
  | cons s scanned ih =>
    obtain ⟨hs, hrest⟩ := List.forall_mem_cons.mp hs
    simp only [List.foldlM_cons, bind_eq_ok_iff, List.forall_mem_cons]
    rw [← exists_addProvider_iff hs m]
    constructor
    · rintro ⟨m', m₁, h₁, h'⟩
      exact ⟨⟨m₁, h₁⟩, (ih hrest m₁).mp ⟨m', h'⟩⟩
    · rintro ⟨⟨m₁, h₁⟩, hall⟩
      obtain ⟨m', h'⟩ := (ih hrest m₁).mpr hall
      exact ⟨m', m₁, h₁, h'⟩

theorem spec_of_foldlM_addProvider {m m' : ProviderMapping} (h : scanned.foldlM r.addProvider m = .ok m') :
    (m.Ordered → m'.Ordered) ∧ ∀ x, x ∈ m'.pairs ↔ x ∈ m.pairs ∨ ∃ s ∈ scanned, r.HasPair s x := by
  induction scanned generalizing m with
  | nil =>
    obtain rfl : m = m' := Except.ok.inj h
    exact ⟨id, by simp⟩
  | cons s scanned ih =>
    obtain ⟨hs, hrest⟩ := List.forall_mem_cons.mp hs
    rw [List.foldlM_cons, bind_eq_ok_iff] at h
    obtain ⟨m₁, h₁, h'⟩ := h
    obtain ⟨hordered, hpairs⟩ := ih hrest h'
    refine ⟨fun hm => hordered (ordered_of_addProvider hs h₁ hm), fun x => ?_⟩
    rw [hpairs, mem_pairs_of_addProvider hs h₁, List.exists_mem_cons_iff, or_assoc]

/-- Scanned declarations that are registered under their own names have a mapping exactly if each of them
registers something. -/
theorem exists_providers_iff : (∃ m, r.providers scanned = .ok m) ↔ ∀ s ∈ scanned, r.Registers s :=
  exists_foldlM_addProvider_iff hs .empty

theorem ordered_of_providers {m : ProviderMapping} (h : r.providers scanned = .ok m) : m.Ordered :=
  (spec_of_foldlM_addProvider hs h).1 .empty

/-- The mapping of scanned declarations holds the pairs of all of them and no others. -/
theorem mem_pairs_of_providers {m : ProviderMapping} (h : r.providers scanned = .ok m)
    (x : String × String) : x ∈ m.pairs ↔ ∃ s ∈ scanned, r.HasPair s x := by
  rw [(spec_of_foldlM_addProvider hs h).2 x, or_iff_right]
  exact List.not_mem_nil

end Declarations

/-! ## Sources -/

theorem withSources_eq_ok_iff {classPath : Registry} {sources : List SourceFile} :
    classPath.withSources sources = .ok r ↔
      ∃ r₀, classPath.registerSources sources = .ok r₀ ∧ (r₀.link (.ofSources sources)).1 = r := by
  rw [withSources, bind_eq_ok_iff]
  simp only [pure, Except.pure, Except.ok.injEq]

/-- A declared class is found under its own entry after linking too. -/
theorem class?_of_withSources {classPath : Registry} {sources : List SourceFile}
    (h : classPath.withSources sources = .ok r) {d : Declared}
    (hd : d ∈ sources.flatMap SourceFile.declared) :
    r.class? d.name = some d.entry := by
  obtain ⟨r₀, h₀, rfl⟩ := withSources_eq_ok_iff.mp h
  rw [class?_link]
  exact class?_of_registerSources h₀ hd

/-- A class that is found after linking is on the class path or declared. -/
theorem eq_or_mem_of_class?_withSources {classPath : Registry} {sources : List SourceFile}
    (h : classPath.withSources sources = .ok r) {c : ClassName} {e : ClassEntry} (he : r.class? c = some e) :
    classPath.class? c = some e ∨ ∃ d ∈ sources.flatMap SourceFile.declared, d.entry = e := by
  obtain ⟨r₀, h₀, rfl⟩ := withSources_eq_ok_iff.mp h
  rw [class?_link] at he
  exact eq_or_mem_of_class?_registerSources h₀ he

/-- Every scanned declaration is one of the classes of the sources. -/
theorem exists_declared_of_mem_scan {sources : List SourceFile} {wanted : DottedName} {s : Scanned}
    (hs : s ∈ scan wanted sources) : ∃ d ∈ sources.flatMap SourceFile.declared, d.name = s.className := by
  obtain ⟨f, hf, hs⟩ := List.mem_flatMap.mp hs
  obtain ⟨p, hp, hs⟩ := List.mem_filterMap.mp hs
  obtain ⟨a, -, rfl⟩ := Option.map_eq_some_iff.mp hs
  exact ⟨f.declaredOf p, List.mem_flatMap.mpr ⟨f, hf, SourceFile.mem_declared_iff.mpr ⟨p, hp, rfl⟩⟩, rfl⟩

/-- Every scanned declaration is registered under its own name. -/
theorem provider_of_mem_scan {classPath : Registry} {sources : List SourceFile} {wanted : DottedName}
    (h : classPath.withSources sources = .ok r) :
    ∀ s ∈ scan wanted sources, r.provider s = .ok s.className := by
  intro s hs
  obtain ⟨d, hd, hname⟩ := exists_declared_of_mem_scan hs
  rw [provider, ← hname, class?_of_withSources h hd]
  rfl

end Registry

theorem analyze_eq_ok_iff {sources : List SourceFile} {classPath : Registry} {m : ProviderMapping} :
    analyze sources classPath = .ok m ↔
      ∃ r, classPath.withSources sources = .ok r ∧ r.providers (scan autoService sources) = .ok m := by
  rw [analyze]
  cases classPath.withSources sources with
  | error e => exact ⟨nofun, nofun⟩
  | ok r => simp only [Except.ok.injEq, exists_eq_left']

/-- An analysis succeeds exactly if registration does and every scanned declaration registers something that
is found.  Its mapping then holds the pairs of all mentions and no others, and every interface of it is a
class of the registry. -/
theorem analyze_spec (sources : List SourceFile) (classPath : Registry) :
    ((∃ m, analyze sources classPath = .ok m) ↔
      ∃ r, classPath.withSources sources = .ok r ∧ ∀ s ∈ scan autoService sources, r.Registers s) ∧
    ∀ m, analyze sources classPath = .ok m → ∃ r, classPath.withSources sources = .ok r ∧
      (∀ x, x ∈ m.pairs ↔ ∃ s ∈ scan autoService sources, r.HasPair s x) ∧
      ∀ i ∈ m.interfaces, ∃ e ∈ r.classes, e.name.binary = i := by
  constructor
  · simp only [analyze_eq_ok_iff]
    constructor
    · rintro ⟨m, r, hr, hm⟩
      have hs : ∀ s ∈ scan autoService sources, r.provider s = .ok s.className :=
        Registry.provider_of_mem_scan hr
      exact ⟨r, hr, (Registry.exists_providers_iff hs).mp ⟨m, hm⟩⟩
    · rintro ⟨r, hr, hall⟩
      have hs : ∀ s ∈ scan autoService sources, r.provider s = .ok s.className :=
        Registry.provider_of_mem_scan hr
      obtain ⟨m, hm⟩ := (Registry.exists_providers_iff hs).mpr hall
      exact ⟨m, r, hr, hm⟩
  · intro m hm
    obtain ⟨r, hr, hm⟩ := analyze_eq_ok_iff.mp hm
    have hs : ∀ s ∈ scan autoService sources, r.provider s = .ok s.className :=
      Registry.provider_of_mem_scan hr
    refine ⟨r, hr, Registry.mem_pairs_of_providers hs hm, fun i hi => ?_⟩
    obtain ⟨p, hp⟩ := (Registry.ordered_of_providers hs hm).mem_interfaces_iff.mp hi
    obtain ⟨s, -, reference, e, -, ⟨name, -, hname⟩, hx⟩ :=
      (Registry.mem_pairs_of_providers hs hm (i, p)).mp hp
    obtain ⟨c, hc⟩ := Registry.exists_class?_of_classifier? hname
    exact ⟨e, Registry.mem_classes_of_class? hc, (Prod.mk.inj hx).1.symm⟩

end ServiceCatalog
