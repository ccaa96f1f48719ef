import Mathlib
import ServiceCatalog.Parse.Declaration
import ServiceCatalog.Proofs.Providers.Analysis
import ServiceCatalog.Providers.FromClasses

/-!
# Kinds of classes and providers

A service loader makes an instance of each provider, so a provider ought to be of a kind that has instances.
Whoever reads class files asks for it: the flags of a class file are looked at before its annotation.  An analysis of
sources does not.  It takes every declaration that carries the annotation, at any depth and of any kind.

* `ProviderMapping.mem_pairs_ofClassFiles`: the pairs of class files come from files of classes with instances.
* `Registry.hasProvider_iff`: the providers of an analysis are the declarations whose annotation mentions something.
* `interfaces_provide_nothing_iff`: when no interface and no annotation class is a provider.
-/

namespace ServiceCatalog

namespace ProviderMapping

/-- Whether a class provides some interface. -/
def HasProvider (m : ProviderMapping) (c : ClassName) : Prop := ∃ i, (i, c.binary) ∈ m.pairs

variable {m m' : ProviderMapping}

/-! ## Class files -/

/-- The pairs that a class file contributes, as texts. -/
theorem mem_pairs_addClassFile {f : ClassFile} {x : String × String} :
    x ∈ (m.addClassFile f).pairs ↔ x ∈ m.pairs ∨ ∃ p ∈ f.providerPairs, x = (p.1.binary, p.2.binary) :=
  mem_pairs_foldl_insert (f := fun p : ClassName × ClassName => (p.1.binary, p.2.binary))

theorem ordered_addClassFile (h : m.Ordered) (f : ClassFile) : (m.addClassFile f).Ordered :=
  h.foldl_insert f.providerPairs fun p => (p.1.binary, p.2.binary)

theorem spec_of_foldlM_addClassFile {entries : List ClassFileEntry}
    (h : entries.foldlM (fun m e => do return m.addClassFile (← e.parse)) m = .ok m') :
    (m.Ordered → m'.Ordered) ∧ ∀ x, x ∈ m'.pairs ↔ x ∈ m.pairs ∨
      ∃ e ∈ entries, ∃ f, e.parse = .ok f ∧ ∃ p ∈ f.providerPairs, x = (p.1.binary, p.2.binary) := by
  induction entries generalizing m with
  | nil =>
    obtain rfl : m = m' := Except.ok.inj h
    exact ⟨id, by simp⟩
  | cons e entries ih =>
    rw [List.foldlM_cons, bind_eq_ok_iff] at h
    obtain ⟨m₁, h₁, h'⟩ := h
    obtain ⟨f, hf, hm₁⟩ := bind_eq_ok_iff.mp h₁
    obtain rfl : m.addClassFile f = m₁ := Except.ok.inj hm₁
    obtain ⟨hordered, hpairs⟩ := ih h'
    refine ⟨fun hm => hordered (ordered_addClassFile hm f), fun x => ?_⟩
    rw [hpairs, mem_pairs_addClassFile, List.exists_mem_cons_iff, or_assoc]
    simp only [hf, Except.ok.injEq, exists_eq_left']

theorem ordered_ofClassFiles {entries : List ClassFileEntry} (h : ofClassFiles entries = .ok m) : m.Ordered :=
  (spec_of_foldlM_addClassFile h).1 .empty

/-- The mapping of class files holds the pairs of all files and no others. -/
theorem mem_pairs_ofClassFiles {entries : List ClassFileEntry} (h : ofClassFiles entries = .ok m)
    {x : String × String} :
    x ∈ m.pairs ↔ ∃ e ∈ entries, ∃ f, e.parse = .ok f ∧ ∃ p ∈ f.providerPairs, x = (p.1.binary, p.2.binary) := by
  rw [(spec_of_foldlM_addClassFile h).2 x, or_iff_right]
  exact List.not_mem_nil

end ProviderMapping

namespace ClassFile

variable {f : ClassFile}

/-- A class file contributes a pair exactly if it is that of a class with instances, which is registered for the
interface. -/
theorem mem_providerPairs_iff {p : ClassName × ClassName} :
    p ∈ f.providerPairs ↔ f.className? = some p.2 ∧ f.isInstantiable = true ∧ p.1 ∈ f.registeredFor := by
  obtain ⟨i, provider⟩ := p
  rw [providerPairs]
  cases hclass : f.className? with
  | none => simp
  | some c =>
    by_cases hinstantiable : f.isInstantiable = true
    · simp [hinstantiable, and_comm]
    · simp [hinstantiable]

/-- A class file that contributes something is neither that of an interface nor that of an annotation. -/
theorem flags_of_mem_providerPairs {p : ClassName × ClassName} (hp : p ∈ f.providerPairs) :
    f.isInterface = false ∧ f.isAnnotationClass = false := by
  obtain ⟨-, hinstantiable, -⟩ := mem_providerPairs_iff.mp hp
  simp only [isInstantiable, Bool.and_eq_true, Bool.not_eq_true'] at hinstantiable
  exact hinstantiable.1.1

end ClassFile

/-! ## Sources -/

namespace Registry

variable {r : Registry}

/-- A class is a provider exactly if a scanned declaration of its binary name mentions something, of whatever kind
it is. -/
theorem hasProvider_iff {scanned : List Scanned} (hs : ∀ s ∈ scanned, r.provider s = .ok s.className)
    {m : ProviderMapping} (hm : r.providers scanned = .ok m) {c : ClassName} :
    m.HasProvider c ↔ ∃ s ∈ scanned, s.className.binary = c.binary ∧ ∃ reference, s.Mentions reference := by
  have hregisters := (exists_providers_iff hs).mp ⟨m, hm⟩
  simp only [ProviderMapping.HasProvider, mem_pairs_of_providers hs hm]
  constructor
  · rintro ⟨i, s, hmem, reference, e, hmention, -, hx⟩
    exact ⟨s, hmem, (Prod.mk.inj hx).2.symm, reference, hmention⟩
  · rintro ⟨s, hmem, hname, reference, hmention⟩
    obtain ⟨e, he⟩ := (hregisters s hmem).denotes reference hmention
    exact ⟨e.name.binary, s, hmem, reference, e, hmention, he, by rw [hname]⟩

end Registry

/-- The providers of an analysis are the declarations, of whatever kind and at any depth, whose annotation mentions
something; so no interface and no annotation class is one exactly if none that has the binary name of such a class
mentions anything.  The providers in class files are classes whose files are flagged as neither. -/
theorem interfaces_provide_nothing_iff (sources : List SourceFile) (classPath : Registry)
    (entries : List ClassFileEntry) :
    (∀ m, analyze sources classPath = .ok m →
      (∀ c, m.HasProvider c ↔
        ∃ s ∈ scan autoService sources, s.className.binary = c.binary ∧ ∃ reference, s.Mentions reference) ∧
      ((∀ d ∈ sources.flatMap SourceFile.declared, d.kind.isInterface → ¬ m.HasProvider d.name) ↔
        ∀ d ∈ sources.flatMap SourceFile.declared, d.kind.isInterface →
          ∀ s ∈ scan autoService sources, s.className.binary = d.name.binary →
            ∀ reference, ¬ s.Mentions reference)) ∧
    ∀ m, ProviderMapping.ofClassFiles entries = .ok m → ∀ x ∈ m.pairs,
      ∃ e ∈ entries, ∃ f c, e.parse = .ok f ∧ f.isInterface = false ∧ f.isAnnotationClass = false ∧
        f.className? = some c ∧ x.2 = c.binary := by
  refine ⟨fun m hm => ?_, fun m hm x hx => ?_⟩
  · obtain ⟨r, hr, hm⟩ := analyze_eq_ok_iff.mp hm
    have hprovides : ∀ c, m.HasProvider c ↔
        ∃ s ∈ scan autoService sources, s.className.binary = c.binary ∧ ∃ reference, s.Mentions reference :=
      fun c => Registry.hasProvider_iff (Registry.provider_of_mem_scan hr) hm
    refine ⟨hprovides, ?_⟩
    simp only [hprovides, not_exists, not_and]
  · obtain ⟨e, he, f, hf, p, hp, rfl⟩ := (ProviderMapping.mem_pairs_ofClassFiles hm).mp hx
    obtain ⟨hinterface, hannotation⟩ := ClassFile.flags_of_mem_providerPairs hp
    exact ⟨e, he, f, p.2, hf, hinterface, hannotation, (ClassFile.mem_providerPairs_iff.mp hp).1, rfl⟩

/-! ### A nested interface with the annotation -/

namespace AnnotatedInterface

/-- A file with an annotated interface inside a class. -/
def text : String :=
  "import com.google.auto.service.AutoService\ninterface Service\n" ++
    "class Outer \x7b @AutoService(Service::class) interface Provider \x7d\n"

/-- The annotated interface. -/
def annotated : ClassDecl :=
  ⟨.interface, ⟨"Provider", ⟨3, 54, 8⟩⟩,
    [⟨none, ⟨.user ⟨[], ⟨⟨"AutoService", ⟨3, 16, 11⟩⟩, [], ⟨3, 16, 11⟩⟩⟩, [], "AutoService", ⟨3, 16, 11⟩⟩,
      [⟨none, false, .classLiteral (.name ⟨"Service", ⟨3, 28, 7⟩⟩) ⟨3, 28, 14⟩, ⟨3, 28, 14⟩⟩], ⟨3, 15, 28⟩⟩],
    [], [], ⟨3, 15, 47⟩⟩

/-- What the file is read as. -/
def file : SourceFile :=
  ⟨"T.kt", [], none,
    [⟨⟨[⟨"com", ⟨1, 8, 3⟩⟩, ⟨"google", ⟨1, 12, 6⟩⟩, ⟨"auto", ⟨1, 19, 4⟩⟩, ⟨"service", ⟨1, 24, 7⟩⟩,
      ⟨"AutoService", ⟨1, 32, 11⟩⟩], ⟨1, 8, 35⟩⟩, false, none, ⟨1, 1, 42⟩⟩],
    [⟨.interface, ⟨"Service", ⟨2, 11, 7⟩⟩, [], [], [], ⟨2, 1, 17⟩⟩,
      ⟨.class, ⟨"Outer", ⟨3, 7, 5⟩⟩, [], [], [annotated], ⟨3, 1, 63⟩⟩],
    [], ⟨1, 1, 7⟩⟩

/-- The mapping of the file. -/
def listed : ProviderMapping := ⟨[("Service", ["Outer$Provider"])]⟩

/-- The annotated interface as it is registered. -/
def declared : Declared := ⟨file, ⟨.root, ⟨["Outer", "Provider"]⟩⟩, [.topLevel .root "Outer"], .interface, []⟩

set_option maxRecDepth 10000 in
theorem parse_source : SourceFile.parse "T.kt" text = .ok file := by
  with_unfolding_all rfl

theorem analyze_file : analyze [file] .empty = .ok listed := by
  cbv

theorem mem_declared : declared ∈ [file].flatMap SourceFile.declared := by
  have h : file.declared = [⟨file, .topLevel .root "Service", [], .interface, []⟩,
      ⟨file, .topLevel .root "Outer", [], .class, []⟩, declared] := by cbv
  simp [h]

theorem hasProvider_declared : listed.HasProvider declared.name := ⟨"Service", by decide +kernel⟩

/-- The interface is a provider, so the condition does not hold of the file. -/
theorem nested_interface_mentions : analyze [file] .empty = .ok listed ∧
    ¬ ∀ d ∈ [file].flatMap SourceFile.declared, d.kind.isInterface →
      ∀ s ∈ scan autoService [file], s.className.binary = d.name.binary → ∀ reference, ¬ s.Mentions reference := by
  refine ⟨analyze_file, fun h => ?_⟩
  have hnone := (((interfaces_provide_nothing_iff [file] .empty []).1 listed analyze_file).2.mpr h)
  exact hnone declared mem_declared rfl hasProvider_declared

/-- The providers of a source text are not all of a kind that has instances. -/
theorem not_forall_interfaces_provide_nothing :
    ¬ ∀ (name source : String) (f : SourceFile) (m : ProviderMapping), SourceFile.parse name source = .ok f →
      analyze [f] .empty = .ok m → ∀ d ∈ [f].flatMap SourceFile.declared, d.kind.isInterface →
        ¬ m.HasProvider d.name :=
  fun h => h "T.kt" text file listed parse_source analyze_file declared mem_declared rfl hasProvider_declared

end AnnotatedInterface

end ServiceCatalog
