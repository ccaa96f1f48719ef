import Mathlib
import ServiceCatalog.Proofs.ClassFile.RoundTrip
import ServiceCatalog.Proofs.Name.Written
import ServiceCatalog.Proofs.Providers.Analysis
import ServiceCatalog.Proofs.Token.Spelling
import ServiceCatalog.Providers.FromClasses

/-!
# Sources and their class files have the same providers

Where an analysis of sources succeeds, its mapping can be read off the class files of the declarations as well.  A
class file holds the classes that the annotation was resolved to by their descriptors, so what is compared is a
resolution on the one side with names that are written and read back on the other.

* `ClassSpec.ofProvider`, `Registry.Compiles`: the class file of a declaration.
* `ClassSpec.providerPairs_ofProvider`: the class file stands for the pairs that it was written from.
* `Registry.step_of_compiles`, `Registry.chain_of_compiles`: reading a class file does to a mapping what adding its
  declaration does, and so do several.
* `ofClassFiles_of_analyze`: the class files of the declarations that can have instances, in any order, hold the pairs
  of these declarations.
-/

namespace ServiceCatalog

/-! ## Ordinary names -/

/-- Whether a class is named by ordinary identifiers: its path has segments, and these and those of its package are
words that need no quotes. -/
structure ClassName.Ordinary (c : ClassName) : Prop where
  relative_ne_nil : c.relative.segments ≠ []
  isWord : ∀ s ∈ c.dotted.segments, isWord s.toList = true

/-- A word holds none of the marks between the segments of a name. -/
theorem notMem_of_isWord {s : String} (h : isWord s.toList = true) {mark : Char}
    (hmark : isIdentifierPart mark = false) (hstart : isIdentifierStart mark = false) : mark ∉ s.toList := by
  intro hmem
  cases hchars : s.toList with
  | nil => exact List.not_mem_nil (hchars ▸ hmem)
  | cons c cs =>
    rw [hchars, ServiceCatalog.isWord, Bool.and_eq_true, List.all_eq_true] at h
    rcases List.mem_cons.mp (hchars ▸ hmem) with rfl | hmem
    · exact absurd h.1 (by simp [hstart])
    · exact absurd (h.2 mark hmem) (by simp [hmark])

/-- A word can be written in a source text. -/
theorem isNameable_of_isWord {s : String} (h : isWord s.toList = true) : ClassName.isNameable s = true := by
  rw [ClassName.isNameable]
  cases hchars : s.toList with
  | nil => simp [hchars, isWord] at h
  | cons c cs =>
    rw [hchars, isWord, Bool.and_eq_true] at h
    simp [not_isDigit_of_isIdentifierStart h.1]

/-- A class that is named by ordinary identifiers can be cut again. -/
theorem ClassName.Ordinary.separable {c : ClassName} (h : c.Ordinary) : c.Separable := by
  have hmarks : ∀ s ∈ c.dotted.segments, '.' ∉ s.toList ∧ '/' ∉ s.toList ∧ '$' ∉ s.toList := by
    intro s hs
    have hword := h.isWord s hs
    exact ⟨notMem_of_isWord hword (by decide) (by decide),
      notMem_of_isWord hword (by decide) (by decide),
      notMem_of_isWord hword (by decide) (by decide)⟩
  refine ⟨fun s hs => ?_, h.relative_ne_nil, fun s hs => ?_⟩
  · have hmem : s ∈ c.dotted.segments := List.mem_append_left _ hs
    refine ⟨?_, (hmarks s hmem).1, (hmarks s hmem).2.1⟩
    rintro rfl
    exact Bool.false_ne_true (h.isWord "" hmem)
  · have hmem : s ∈ c.dotted.segments := List.mem_append_right _ hs
    exact ⟨isNameable_of_isWord (h.isWord s hmem), (hmarks s hmem).2⟩

/-! ## Class files of providers -/

/-- The annotation that registers a class for interfaces. -/
def AnnotationRecord.registration (interfaces : List ClassName) : AnnotationRecord :=
  ⟨ClassFile.autoServiceDescriptor, [("value", .array (interfaces.map fun i => .class i.descriptor))]⟩

namespace ClassSpec

/-- The class file of a provider, in which the annotation is visible at run time or not. -/
def ofProvider (provider : ClassName) (interfaces : List ClassName) (isVisible : Bool) : ClassSpec :=
  ⟨provider.internal,
    [if isVisible then .visible (.registration interfaces) else .invisible (.registration interfaces)]⟩

variable {provider : ClassName} {interfaces : List ClassName}

theorem access_described_ofProvider (isVisible : Bool) :
    (ofProvider provider interfaces isVisible).described.access = 0x21 := by
  cases isVisible <;> rfl

theorem annotations_described_ofProvider (isVisible : Bool) :
    (ofProvider provider interfaces isVisible).described.annotations = [.registration interfaces] := by
  cases isVisible <;> rfl

/-- The class file stands for a class that can have instances. -/
theorem isInstantiable_described_ofProvider (isVisible : Bool) :
    (ofProvider provider interfaces isVisible).described.isInstantiable = true := by
  have hdescriptor : ClassFile.autoServiceDescriptor ≠ ClassFile.metadataDescriptor := by decide
  have hmetadata : (ofProvider provider interfaces isVisible).described.metadata? = none := by
    rw [ClassFile.metadata?, ClassFile.metadataCode?, ClassFile.find?, annotations_described_ofProvider]
    simp [AnnotationRecord.registration, hdescriptor]
  rw [ClassFile.isInstantiable, ClassFile.isInterface, ClassFile.isAnnotationClass, ClassFile.isModule,
    access_described_ofProvider, hmetadata]
  decide

/-- The class file is registered for the interfaces that it was written from. -/
theorem registeredFor_described_ofProvider (hinterfaces : ∀ i ∈ interfaces, i.Separable) (isVisible : Bool) :
    (ofProvider provider interfaces isVisible).described.registeredFor = interfaces := by
  have hfind : (ofProvider provider interfaces isVisible).described.find? ClassFile.autoServiceDescriptor =
      some (.registration interfaces) := by
    rw [ClassFile.find?, annotations_described_ofProvider]
    simp [AnnotationRecord.registration]
  have hvalues : ClassFile.classValues (.registration interfaces) = interfaces.map fun i => .class i.descriptor := rfl
  have hnamed : ∀ i ∈ interfaces, ClassFile.namedClass? (.class i.descriptor) = some i :=
    fun i hi => (hinterfaces i hi).ofDescriptor?_descriptor
  rw [ClassFile.registeredFor, hfind]
  show (ClassFile.classValues _).filterMap ClassFile.namedClass? = _
  rw [hvalues, List.filterMap_map]
  exact (List.filterMap_congr hnamed).trans List.filterMap_some

/-- The class file stands for the pairs that it was written from. -/
theorem providerPairs_ofProvider (hprovider : provider.Separable) (hinterfaces : ∀ i ∈ interfaces, i.Separable)
    (isVisible : Bool) :
    (ofProvider provider interfaces isVisible).described.providerPairs = interfaces.map fun i => (i, provider) := by
  have hclass : (ofProvider provider interfaces isVisible).described.className? = some provider :=
    hprovider.ofInternal?_internal
  rw [ClassFile.providerPairs, hclass, registeredFor_described_ofProvider hinterfaces]
  exact if_pos (isInstantiable_described_ofProvider isVisible)

/-! ### Sizes -/

theorem allFit_literals (interfaces : List ClassName) :
    ElementValue.AllFit (interfaces.map fun i => .class i.descriptor) := by
  induction interfaces with
  | nil => trivial
  | cons i interfaces ih => exact ⟨trivial, ih⟩

theorem sizeOfAll_literals (interfaces : List ClassName) :
    ElementValue.sizeOfAll (interfaces.map fun i => .class i.descriptor) = 3 * interfaces.length := by
  induction interfaces with
  | nil => rfl
  | cons i interfaces ih =>
    rw [List.map_cons, ElementValue.sizeOfAll, ElementValue.size, ih, List.length_cons]
    omega

/-- The class file of a provider fits the format if its pool, its texts and the number of interfaces do. -/
theorem fits_ofProvider {isVisible : Bool}
    (hslots : PoolItem.totalSlots ((ofProvider provider interfaces isVisible).assemble []).2 + 1 < 256 ^ 2)
    (htexts : ∀ item ∈ ((ofProvider provider interfaces isVisible).assemble []).2, item.textLength < 256 ^ 2)
    (hcount : interfaces.length < 256 ^ 2) : (ofProvider provider interfaces isVisible).Fits := by
  have hrecord : (AnnotationRecord.registration interfaces).Fits :=
    ⟨show 1 < 256 ^ 2 by decide, ⟨(List.length_map _).trans_lt hcount, allFit_literals interfaces⟩, trivial⟩
  have hlength : attributeLength [.registration interfaces] < 256 ^ 4 := by
    have hsize : (AnnotationRecord.registration interfaces).size = 3 * interfaces.length + 9 := by
      simp only [AnnotationRecord.registration, AnnotationRecord.size, AnnotationRecord.sizeOfElements,
        ElementValue.size, sizeOfAll_literals]
      omega
    rw [attributeLength, List.map_singleton, List.sum_singleton, hsize]
    omega
  have hnone : attributeLength [] < 256 ^ 4 := by decide
  have hone : 1 < 256 ^ 2 := by decide
  have hzero : 0 < 256 ^ 2 := by decide
  cases isVisible with
  | false =>
    have hcalls : ∀ c ∈ (ofProvider provider interfaces false).calls, c.Fits := List.forall_mem_singleton.mpr hrecord
    exact ⟨hslots, htexts, hcalls, hzero, hzero, hone, hnone, hlength⟩
  | true =>
    have hcalls : ∀ c ∈ (ofProvider provider interfaces true).calls, c.Fits := List.forall_mem_singleton.mpr hrecord
    exact ⟨hslots, htexts, hcalls, hzero, hone, hzero, hlength, hnone⟩

end ClassSpec

/-! ## Declarations and their class files -/

/-- Whether a declaration stands for a class that can have instances. -/
def Scanned.isInstantiable (s : Scanned) : Bool :=
  s.place.decl.kind ≠ .interface && s.place.decl.kind ≠ .annotationClass

namespace Registry

/-- Whether a class file is that of a declaration: it has the name of the class, and its annotation holds the classes
that the annotation of the declaration is resolved to. -/
def Compiles (r : Registry) (s : Scanned) (spec : ClassSpec) : Prop :=
  ∃ interfaces isVisible, r.interfaces s = .ok interfaces ∧ spec = .ofProvider s.className interfaces isVisible

/-- Class files of the declarations that can have instances, in some order: the declarations, what is asked for, and
the bytes with the place where they are found. -/
structure Compilation (r : Registry) (sources : List SourceFile) where
  declarations : List Scanned
  specs : List ClassSpec
  files : List ClassFileEntry
  perm : declarations.Perm ((scan autoService sources).filter Scanned.isInstantiable)
  compiles : List.Forall₂ r.Compiles declarations specs
  built : List.Forall₂ (fun spec file => file.bytes = spec.build) specs files

/-- Whether the classes that a declaration and its annotation are about survive in a class file. -/
structure Survives (r : Registry) (s : Scanned) : Prop where
  provider : r.provider s = .ok s.className
  className : s.className.Separable
  interfaces : ∀ {interfaces}, r.interfaces s = .ok interfaces → ∀ i ∈ interfaces, i.Separable

variable {r : Registry} {s : Scanned} {spec : ClassSpec} {file : ClassFileEntry}

/-- Reading the class file of a declaration does to a mapping what adding the declaration does. -/
theorem step_of_compiles (hs : r.Survives s) (hspec : r.Compiles s spec) (hfits : spec.Fits)
    (hfile : file.bytes = spec.build) (m : ProviderMapping) :
    ∃ f, file.parse = .ok f ∧ r.addProvider m s = .ok (m.addClassFile f) := by
  obtain ⟨interfaces, isVisible, hinterfaces, rfl⟩ := hspec
  have hparse : ClassFile.parse file.bytes = .ok (ClassSpec.ofProvider s.className interfaces isVisible).described := by
    rw [hfile]
    exact ByteReader.answer_of_reads (ClassSpec.reads_build hfits)
  refine ⟨_, by rw [ClassFileEntry.parse, hparse], ?_⟩
  refine (addProvider_eq_ok_iff hs.provider).mpr ⟨interfaces, hinterfaces, ?_⟩
  rw [ProviderMapping.addClassFile, ClassSpec.providerPairs_ofProvider hs.className (hs.interfaces hinterfaces),
    List.foldl_map]

/-- Reading the class files of declarations does to a mapping what adding the declarations does. -/
theorem chain_of_compiles {declarations : List Scanned} {specs : List ClassSpec} {files : List ClassFileEntry}
    (hs : ∀ s ∈ declarations, r.Survives s) (hspecs : List.Forall₂ r.Compiles declarations specs)
    (hfits : ∀ spec ∈ specs, spec.Fits)
    (hfiles : List.Forall₂ (fun spec file => file.bytes = spec.build) specs files) (m : ProviderMapping) :
    ∃ m', files.foldlM (fun m file => do return m.addClassFile (← file.parse)) m = .ok m' ∧
      declarations.foldlM r.addProvider m = .ok m' := by
  induction hspecs generalizing files m with
  | nil =>
    cases hfiles
    exact ⟨m, rfl, rfl⟩
  | @cons s spec declarations specs hspec hspecs ih =>
    cases hfiles with
    | @cons _ file _ files hfile hfiles =>
      obtain ⟨hs, hothers⟩ := List.forall_mem_cons.mp hs
      obtain ⟨hfit, hfits⟩ := List.forall_mem_cons.mp hfits
      obtain ⟨f, hf, hstep⟩ := step_of_compiles hs hspec hfit hfile m
      obtain ⟨m', hread, hadded⟩ := ih hothers hfits hfiles (m.addClassFile f)
      refine ⟨m', ?_, ?_⟩
      · rw [List.foldlM_cons, hf]
        exact hread
      · rw [List.foldlM_cons, hstep]
        exact hadded

/-! ## All declarations -/

/-- Where classes have names that can be cut again, so have those that scanned declarations are about. -/
theorem survives_of_withSources {sources : List SourceFile} {classPath : Registry}
    (hr : classPath.withSources sources = .ok r) (hclassPath : ∀ e ∈ classPath.classes, e.name.Separable)
    (hsources : ∀ d ∈ sources.flatMap SourceFile.declared, d.name.Separable) {wanted : DottedName} :
    ∀ s ∈ scan wanted sources, r.Survives s := by
  intro s hs
  obtain ⟨d, hd, hname⟩ := exists_declared_of_mem_scan hs
  refine ⟨provider_of_mem_scan hr s hs, hname ▸ hsources d hd, fun hinterfaces i hi => ?_⟩
  obtain ⟨reference, e, -, ⟨name, -, he⟩, rfl⟩ := (mem_of_interfaces hinterfaces).mp hi
  obtain ⟨c, hc⟩ := exists_class?_of_classifier? he
  rcases eq_or_mem_of_class?_withSources hr hc with hc | ⟨d, hd, rfl⟩
  · exact hclassPath e (mem_classes_of_class? hc)
  · exact hsources d hd

end Registry

/-- Where an analysis succeeds and all classes are named by ordinary identifiers, every scanned declaration has a class
file.  The files of those that can have instances, in any order, hold the pairs that these declarations contribute and
no others, as long as their sizes fit the format. -/
theorem ofClassFiles_of_analyze {sources : List SourceFile} {classPath : Registry} {m : ProviderMapping}
    (h : analyze sources classPath = .ok m) (hclassPath : ∀ e ∈ classPath.classes, e.name.Ordinary)
    (hsources : ∀ d ∈ sources.flatMap SourceFile.declared, d.name.Ordinary) :
    ∃ r, classPath.withSources sources = .ok r ∧
      (∀ s ∈ scan autoService sources, ∃ spec, r.Compiles s spec) ∧
      ∀ c : r.Compilation sources, (∀ spec ∈ c.specs, spec.Fits) →
        ∃ m', ProviderMapping.ofClassFiles c.files = .ok m' ∧
          ∀ x, x ∈ m'.pairs ↔ x ∈ m.pairs ∧ ∃ s ∈ c.declarations, r.HasPair s x := by
  obtain ⟨r, hr, hm⟩ := analyze_eq_ok_iff.mp h
  have hprovider : ∀ s ∈ scan autoService sources, r.provider s = .ok s.className := Registry.provider_of_mem_scan hr
  have hsurvives : ∀ s ∈ scan autoService sources, r.Survives s :=
    Registry.survives_of_withSources hr (fun e he => (hclassPath e he).separable) fun d hd => (hsources d hd).separable
  have hregisters := (Registry.exists_providers_iff hprovider).mp ⟨m, hm⟩
  refine ⟨r, hr, fun s hs => ?_, fun c hfits => ?_⟩
  · obtain ⟨interfaces, hinterfaces⟩ := Registry.exists_interfaces_iff.mpr (hregisters s hs)
    exact ⟨_, interfaces, true, hinterfaces, rfl⟩
  have hscanned : ∀ s ∈ c.declarations, s ∈ scan autoService sources :=
    fun s hs => List.mem_of_mem_filter (c.perm.mem_iff.mp hs)
  obtain ⟨m', hread, hadded⟩ := Registry.chain_of_compiles (fun s hs => hsurvives s (hscanned s hs)) c.compiles hfits
    c.built .empty
  have hpairs : ∀ x, x ∈ m'.pairs ↔ ∃ s ∈ c.declarations, r.HasPair s x :=
    Registry.mem_pairs_of_providers (fun s hs => hprovider s (hscanned s hs)) hadded
  refine ⟨m', hread, fun x => (hpairs x).trans ⟨fun hx => ⟨?_, hx⟩, And.right⟩⟩
  obtain ⟨s, hs, hpair⟩ := hx
  exact (Registry.mem_pairs_of_providers hprovider hm x).mpr ⟨s, hscanned s hs, hpair⟩

/-! ## Two files, one of them with a class of any name -/

namespace TwoFiles

/-- The annotation that registers a class for `Service`. -/
def forService : AnnotationUse :=
  ⟨none, ⟨.user ⟨[], ⟨⟨"AutoService", default⟩, [], default⟩⟩, [], "AutoService", default⟩,
    [⟨none, false, .classLiteral (.name ⟨"Service", default⟩) default, default⟩], default⟩

/-- A declaration that is registered for `Service`. -/
def decl (kind : ClassKind) (name : String) : ClassDecl := ⟨kind, ⟨name, default⟩, [forService], [], [], default⟩

/-- A class around `Inner`, which is registered for `Service`. -/
def outer : ClassDecl := ⟨.class, ⟨"Outer", default⟩, [], [], [decl .class "Inner"], default⟩

/-- An import of a class. -/
def importOf (segments : List String) : Import := ⟨⟨segments.map (⟨·, default⟩), default⟩, false, none, default⟩

/-- A file with the interface, which is registered for itself, and a nested class. -/
def first : SourceFile :=
  ⟨"First.kt", [], some ⟨[⟨"a", default⟩], default⟩, [importOf autoService.segments],
    [decl .interface "Service", outer], [], default⟩

/-- A file without a package, with a class of a given name. -/
def second (name : String) : SourceFile :=
  ⟨"Second.kt", [], none, [importOf autoService.segments, importOf ["a", "Service"]], [decl .class name], [], default⟩

/-- The two files. -/
def sources (name : String) : List SourceFile := [first, second name]

/-- The nested class. -/
def inner : Scanned := ⟨first, ⟨[outer], decl .class "Inner"⟩, forService⟩

/-- The class of the given name. -/
def named (name : String) : Scanned := ⟨second name, ⟨[], decl .class name⟩, forService⟩

/-- The interface. -/
def service : ClassName := .topLevel (.ofText "a") "Service"

/-- The registry with the files. -/
def registered (name : String) : Registry := (Registry.empty.withSources (sources name)).toOption.getD .empty

theorem withSources_sources (name : String) :
    Registry.empty.withSources (sources name) = .ok (registered name) := by cbv

theorem scan_sources (name : String) :
    scan autoService (sources name) = [⟨first, ⟨[], decl .interface "Service"⟩, forService⟩, inner, named name] := by
  cbv

/-- Each of the declarations is registered for the interface. -/
theorem interfaces_eq (name : String) :
    ∀ s ∈ scan autoService (sources name), (registered name).interfaces s = .ok [service] := by
  rw [scan_sources]
  simp only [List.forall_mem_cons]
  exact ⟨by cbv, by cbv, by cbv, fun _ hs => absurd hs List.not_mem_nil⟩

/-- The class file of the class of the given name, with an annotation that is visible at run time. -/
def namedSpec (name : String) : ClassSpec := .ofProvider (named name).className [service] true

/-- The class file of the nested class, with an annotation that is not visible at run time. -/
def innerSpec : ClassSpec := .ofProvider inner.className [service] false

/-- The two class files. -/
def compilation (name : String) : (registered name).Compilation (sources name) where
  declarations := [named name, inner]
  specs := [namedSpec name, innerSpec]
  files := [⟨"Second.class", (namedSpec name).build⟩, ⟨"Inner.class", innerSpec.build⟩]
  perm := by
    rw [scan_sources]
    exact .swap ..
  compiles := by
    have hinterfaces := interfaces_eq name
    rw [scan_sources] at hinterfaces
    exact .cons ⟨_, _, hinterfaces _ (by simp), rfl⟩ (.cons ⟨_, _, hinterfaces _ (by simp), rfl⟩ .nil)
  built := .cons rfl (.cons rfl .nil)

/-- The analysis of the files succeeds. -/
theorem exists_analyze_sources (name : String) : ∃ m, analyze (sources name) .empty = .ok m := by
  have hregisters : ∀ s ∈ scan autoService (sources name), (registered name).Registers s :=
    fun s hs => Registry.exists_interfaces_iff.mp ⟨_, interfaces_eq name s hs⟩
  have hprovider : ∀ s ∈ scan autoService (sources name), (registered name).provider s = .ok s.className :=
    Registry.provider_of_mem_scan (withSources_sources name)
  obtain ⟨m, hm⟩ := (Registry.exists_providers_iff hprovider).mpr hregisters
  exact ⟨m, analyze_eq_ok_iff.mpr ⟨registered name, withSources_sources name, hm⟩⟩

/-- The classes of the files are named by ordinary identifiers if the given name is one. -/
theorem ordinary_of_mem_declared {name : String} (h : isWord name.toList = true) :
    ∀ d ∈ (sources name).flatMap SourceFile.declared, d.name.Ordinary := by
  have hdeclared : ((sources name).flatMap SourceFile.declared).map Declared.name =
      [service, .topLevel (.ofText "a") "Outer", inner.className, (named name).className] := by cbv
  have hall : ∀ c ∈ ((sources name).flatMap SourceFile.declared).map Declared.name, c.Ordinary := by
    rw [hdeclared]
    simp only [List.forall_mem_cons]
    refine ⟨⟨by decide, by decide⟩, ⟨by decide, by decide⟩, ⟨by decide, by decide⟩,
      ⟨by simp [named, Scanned.className, Placed.className, Placed.path], ?_⟩, fun _ hc => absurd hc List.not_mem_nil⟩
    intro s hs
    obtain rfl : s = name := List.mem_singleton.mp hs
    exact h
  exact fun d hd => hall _ (List.mem_map_of_mem hd)

theorem no_classes_empty : ∀ e ∈ Registry.empty.classes, e.name.Ordinary :=
  fun _ he => absurd he List.not_mem_nil

/-- The mapping of the analysis, with `Provider` for the given name. -/
def providers : ProviderMapping := ⟨[("a.Service", ["Provider", "a.Outer$Inner", "a.Service"])]⟩

/-- With `Provider` for the given name the class files fit, and hold what the two classes contribute. -/
theorem ofClassFiles_provider :
    analyze (sources "Provider") .empty = .ok providers ∧ (∀ e ∈ Registry.empty.classes, e.name.Ordinary) ∧
      (∀ d ∈ (sources "Provider").flatMap SourceFile.declared, d.name.Ordinary) ∧
      (∀ spec ∈ (compilation "Provider").specs, spec.Fits) ∧
      ∃ m', ProviderMapping.ofClassFiles (compilation "Provider").files = .ok m' ∧
        ∀ x, x ∈ m'.pairs ↔ x ∈ providers.pairs ∧
          ∃ s ∈ (compilation "Provider").declarations, (registered "Provider").HasPair s x := by
  have hanalyze : analyze (sources "Provider") .empty = .ok providers := by cbv
  have hordinary := ordinary_of_mem_declared (show isWord "Provider".toList = true by decide +kernel)
  have hnamed : (namedSpec "Provider").Fits :=
    ClassSpec.fits_ofProvider (by decide +kernel) (by decide +kernel) (by decide)
  have hinner : innerSpec.Fits := ClassSpec.fits_ofProvider (by decide +kernel) (by decide +kernel) (by decide)
  have hfits : ∀ spec ∈ (compilation "Provider").specs, spec.Fits :=
    List.forall_mem_cons.mpr ⟨hnamed, List.forall_mem_singleton.mpr hinner⟩
  obtain ⟨r, hr, -, hfiles⟩ := ofClassFiles_of_analyze hanalyze no_classes_empty hordinary
  obtain rfl : registered "Provider" = r := Except.ok.inj ((withSources_sources "Provider").symm.trans hr)
  exact ⟨hanalyze, no_classes_empty, hordinary, hfits, hfiles (compilation "Provider") hfits⟩

/-! ### A name that does not fit -/

/-- A name of so many letters. -/
def letters (k : Nat) : String := String.ofList (List.replicate k 'L')

theorem utf8Bytes_letters (k : Nat) : utf8Bytes (letters k) = List.replicate k 76 := by
  have hchar : String.utf8EncodeChar 'L' = [76] := by decide
  rw [letters, utf8Bytes_ofList, List.flatMap_replicate, hchar, List.flatten_replicate_singleton]

theorem length_letters (k : Nat) : (letters k).length = k := by
  rw [letters, String.length_ofList, List.length_replicate]

theorem isWord_letters (k : Nat) : isWord (letters (k + 1)).toList = true := by
  have hstart : isIdentifierStart 'L' = true := by decide
  have hpart : isIdentifierPart 'L' = true := by decide
  rw [letters, String.toList_ofList, List.replicate_succ, isWord, hstart, List.all_replicate, hpart]
  simp

/-- The texts that the class file of the class of the given name holds beside the name. -/
def texts : List String :=
  ["java/lang/Object", "Lcom/google/auto/service/AutoService;", "value", "La/Service;", "RuntimeVisibleAnnotations"]

open ByteReader PoolItem PoolWriter in
/-- A name that is none of the other texts is the first of eight constants. -/
theorem pool_namedSpec {name : String} (h : ∀ s ∈ texts, name ≠ s) :
    ∃ others, ((namedSpec name).assemble []).2 = .utf8 (utf8Bytes name) :: others ∧ totalSlots others = 7 := by
  have hname : (named name).className.internal = name := rfl
  have hservice : service.descriptor = "La/Service;" := by decide
  have hdescriptor : ClassFile.autoServiceDescriptor = "Lcom/google/auto/service/AutoService;" := by decide
  simp only [texts, List.forall_mem_cons] at h
  obtain ⟨hobject, hauto, hvalue, hinterface, hvisible, -⟩ := h
  refine ⟨[.class 1, .utf8 (utf8Bytes "java/lang/Object"), .class 3,
    .utf8 (utf8Bytes "Lcom/google/auto/service/AutoService;"), .utf8 (utf8Bytes "value"),
    .utf8 (utf8Bytes "La/Service;"), .utf8 (utf8Bytes "RuntimeVisibleAnnotations")], ?_, rfl⟩
  rw [namedSpec, ClassSpec.ofProvider, ClassSpec.assemble, hname]
  simp [hservice, hdescriptor, hobject, hauto, hvalue, hinterface, hvisible, utf8Bytes_inj, bind, StateT.bind, pure,
    StateT.pure, ClassSpec.initial, ClassSpec.apply, ClassSpec.annotationTable, ClassFile.visibleAttribute,
    AnnotationRecord.registration, className, textReference, text, indexOf?, add, record, elements, value, values,
    PoolItem.slots]

/-- A class file whose second constant begins with the byte of a letter cannot be read. -/
theorem parse_of_front (rest : List UInt8) :
    ClassFile.parse ([0xCA, 0xFE, 0xBA, 0xBE, 0, 0, 0, 0x34, 0, 9, 1, 0, 0, 76] ++ rest) =
      .error (.unsupportedConstant 76) := by cbv

open ByteReader PoolItem in
/-- The length of a name with as many letters as two bytes have values is written as zero, and the letters are then
read as constants. -/
theorem parse_build_letters {k : Nat} (hk : k + 1 = 256 ^ 2) :
    ClassFile.parse (namedSpec (letters (k + 1))).build = .error (.unsupportedConstant 76) := by
  have hne : ∀ s ∈ texts, letters (k + 1) ≠ s := by
    have hshort : ∀ s ∈ texts, s.length < 256 ^ 2 := by decide
    rintro s hs rfl
    exact absurd (hshort _ hs) (by rw [length_letters, hk]; exact Nat.lt_irrefl _)
  obtain ⟨others, hpool, hothers⟩ := pool_namedSpec hne
  have hlength : bigEndian 2 (utf8Bytes (letters (k + 1))).length = [0, 0] := by
    rw [utf8Bytes_letters, List.length_replicate, hk]
    rfl
  have hcount : bigEndian 2 (totalSlots ((namedSpec (letters (k + 1))).assemble []).2 + 1) = [0, 9] := by
    rw [hpool, totalSlots_cons, hothers]
    exact show bigEndian 2 9 = [0, 9] by decide
  have hencode : encodeAll ((namedSpec (letters (k + 1))).assemble []).2 =
      [0, 9] ++ ([1, 0, 0] ++ 76 :: List.replicate k 76 ++ others.flatMap encode) := by
    rw [encodeAll, hcount, hpool, List.flatMap_cons, encode, hlength, utf8Bytes_letters, List.replicate_succ]
  have hbuild : (namedSpec (letters (k + 1))).build =
      [0xCA, 0xFE, 0xBA, 0xBE, 0, 0, 0, 0x34, 0, 9, 1, 0, 0, 76] ++
        (List.replicate k 76 ++ others.flatMap encode ++ ((namedSpec (letters (k + 1))).assemble []).1) := by
    rw [ClassSpec.build_eq, hencode]
    simp only [List.append_assoc]
    rfl
  rw [hbuild]
  exact parse_of_front _

/-- Not all class files of the declarations can be read: the name of a class may be too long for a class file. -/
theorem not_forall_ofClassFiles :
    ¬ ∀ (sources : List SourceFile) (classPath : Registry) (m : ProviderMapping), analyze sources classPath = .ok m →
      (∀ e ∈ classPath.classes, e.name.Ordinary) → (∀ d ∈ sources.flatMap SourceFile.declared, d.name.Ordinary) →
      ∃ r, classPath.withSources sources = .ok r ∧ ∀ c : r.Compilation sources,
        ∃ m', ProviderMapping.ofClassFiles c.files = .ok m' ∧
          ∀ x, x ∈ m'.pairs ↔ x ∈ m.pairs ∧ ∃ s ∈ c.declarations, r.HasPair s x := by
  intro h
  obtain ⟨k, hk⟩ : ∃ k, k + 1 = 256 ^ 2 := ⟨65535, rfl⟩
  obtain ⟨m, hm⟩ := exists_analyze_sources (letters (k + 1))
  obtain ⟨r, hr, hfiles⟩ := h _ _ m hm no_classes_empty (ordinary_of_mem_declared (isWord_letters k))
  obtain rfl : registered (letters (k + 1)) = r := Except.ok.inj ((withSources_sources _).symm.trans hr)
  obtain ⟨m', hm', -⟩ := hfiles (compilation (letters (k + 1)))
  have hfirst : ClassFileEntry.parse ⟨"Second.class", (namedSpec (letters (k + 1))).build⟩ =
      .error ⟨"Second.class", .unsupportedConstant 76⟩ := by
    rw [ClassFileEntry.parse, parse_build_letters hk]
  rw [ProviderMapping.ofClassFiles, compilation, List.foldlM_cons, hfirst] at hm'
  exact absurd hm' nofun

end TwoFiles

end ServiceCatalog
