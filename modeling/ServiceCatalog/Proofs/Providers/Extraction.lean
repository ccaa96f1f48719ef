import ServiceCatalog.Proofs.ClassFile.RoundTrip
import ServiceCatalog.Proofs.Providers.Kinds

/-!
# What is read off class files

Reading providers off class files goes through the files in order, and the first one that is malformed ends it.  Each
of the others is asked for its flags, its metadata, its name and the annotation that registers it, and gives one pair
for every class literal in the value of that annotation.  Of several annotations of one class, and of several values
of one name, the first counts.

The metadata of a class file has a number for the kind of declaration, and a file whose number is not that of a class
ought to be left out.  But a number of none of the known kinds is taken as if there were no metadata, so such a file
is read like that of a class.

* `ClassFile.Registers`: the pairs that a class file gives if its metadata is not looked at.
* `ClassFile.HasOtherKind`, `ClassFile.IsLeftOut`: the class files that ought to be left out, and those that are.
* `ClassFile.exists_providerPairs_iff`: the pairs of a class file.
* `ofClassFiles_exact`: the error or the pairs of several class files, and when files that ought to be left out make
  no difference.
-/

namespace ServiceCatalog

/-! ## Annotations and their values -/

namespace AnnotationRecord

variable {a : AnnotationRecord}

/-- Whether a value is the first one of its name in an annotation. -/
def Gives (a : AnnotationRecord) (name : String) (v : ElementValue) : Prop :=
  ∃ before after, a.elements = before ++ (name, v) :: after ∧ ∀ x ∈ before, x.1 ≠ name

theorem element?_eq_some_iff {name : String} {v : ElementValue} : a.element? name = some v ↔ a.Gives name v := by
  simp only [element?, List.lookup_eq_some_iff, Gives, bne_iff_ne, ne_comm]

end AnnotationRecord

namespace ElementValue

/-- Whether a value is the literal of a class, by a descriptor that can be read. -/
def Names (v : ElementValue) (i : ClassName) : Prop := ∃ d, v = .class d ∧ ClassName.ofDescriptor? d = some i

/-- Whether a value is the literal of a class or an array that holds one. -/
def Lists (v : ElementValue) (i : ClassName) : Prop :=
  v.Names i ∨ ∃ values, v = .array values ∧ ∃ w ∈ values, w.Names i

end ElementValue

namespace ClassFile

variable {f : ClassFile}

theorem namedClass?_eq_some_iff {v : ElementValue} {i : ClassName} : namedClass? v = some i ↔ v.Names i := by
  cases v <;> simp [namedClass?, ElementValue.class?, ElementValue.Names]

/-- The classes that are taken from an annotation are those its value lists; elements of an array that are something
else are passed. -/
theorem mem_filterMap_classValues_iff {a : AnnotationRecord} {i : ClassName} :
    i ∈ (classValues a).filterMap namedClass? ↔ ∃ v, a.Gives "value" v ∧ v.Lists i := by
  simp only [← AnnotationRecord.element?_eq_some_iff, List.mem_filterMap, namedClass?_eq_some_iff, classValues]
  cases a.element? "value" with
  | none => simp
  | some v => cases v <;> simp [ElementValue.Lists, ElementValue.Names]

/-- Whether an annotation is the first one of its class in a class file, those visible at run time before the
others. -/
def HasFirst (f : ClassFile) (descriptor : String) (a : AnnotationRecord) : Prop :=
  ∃ before after, f.visible ++ f.invisible = before ++ a :: after ∧ a.descriptor = descriptor ∧
    ∀ b ∈ before, b.descriptor ≠ descriptor

theorem find?_eq_some_iff {descriptor : String} {a : AnnotationRecord} :
    f.find? descriptor = some a ↔ f.HasFirst descriptor a := by
  rw [find?, List.find?_eq_some_iff_append, annotations, HasFirst]
  simp only [decide_eq_true_eq, Bool.not_eq_true', decide_eq_false_iff_not]
  constructor
  · rintro ⟨hdescriptor, before, after, hsplit, hbefore⟩
    exact ⟨before, after, hsplit, hdescriptor, hbefore⟩
  · rintro ⟨before, after, hsplit, hdescriptor, hbefore⟩
    exact ⟨hdescriptor, before, after, hsplit, hbefore⟩

theorem mem_registeredFor_iff {i : ClassName} :
    i ∈ f.registeredFor ↔ ∃ a v, f.HasFirst autoServiceDescriptor a ∧ a.Gives "value" v ∧ v.Lists i := by
  simp only [← find?_eq_some_iff, exists_and_left, ← mem_filterMap_classValues_iff, registeredFor]
  cases f.find? autoServiceDescriptor with
  | none => simp
  | some a => simp

/-! ## Metadata -/

/-- Whether a class file carries metadata with a number of a kind other than that of a class. -/
def HasOtherKind (f : ClassFile) : Prop :=
  ∃ a ∈ f.visible ++ f.invisible, a.descriptor = metadataDescriptor ∧ ∃ k, a.Gives "k" (.int k) ∧ k ≠ 1

/-- Whether the first metadata of a class file has the number of a known kind other than that of a class. -/
def IsLeftOut (f : ClassFile) : Prop :=
  ∃ a, f.HasFirst metadataDescriptor a ∧ ∃ k, a.Gives "k" (.int k) ∧ k ∈ [2, 3, 4, 5]

theorem IsLeftOut.hasOtherKind (h : f.IsLeftOut) : f.HasOtherKind := by
  obtain ⟨a, ⟨before, after, hsplit, hdescriptor, -⟩, k, hk, hmem⟩ := h
  refine ⟨a, hsplit ▸ List.mem_append_right _ (List.mem_cons_self ..), hdescriptor, k, hk, ?_⟩
  rintro rfl
  exact absurd hmem (by decide)

/-- A number counts as that of a class unless it is one of another known kind. -/
theorem all_ofCode?_iff (k : Int32) : (MetadataKind.ofCode? k).all (· = .class) = true ↔ k ∉ [2, 3, 4, 5] := by
  cases hkind : MetadataKind.ofCode? k with
  | none =>
    simp only [Option.all_none, true_iff]
    intro hk
    obtain ⟨kind, -, rfl⟩ := List.mem_map.mp (show k ∈ MetadataKind.all.tail.map MetadataKind.code from hk)
    exact absurd hkind (by simp)
  | some kind =>
    obtain rfl : kind.code = k := by simpa using List.find?_some hkind
    cases kind <;> decide

/-- What is asked of the metadata of a class file: that its kind, if it has one, is that of a class. -/
theorem all_metadata?_iff : f.metadata?.all (· = .class) = true ↔ ¬ f.IsLeftOut := by
  simp only [IsLeftOut, ← find?_eq_some_iff, ← AnnotationRecord.element?_eq_some_iff, metadata?, metadataCode?]
  cases f.find? metadataDescriptor with
  | none => simp
  | some a =>
    cases hk : a.element? "k" with
    | none => simp [hk, all_ofCode?_iff]
    | some v => cases v <;> simp [hk, ElementValue.int?, all_ofCode?_iff]

/-! ## The pairs of a class file -/

/-- Whether the class of a class file is registered for an interface, both given by their binary names, whatever the
metadata says: the file is not flagged as that of an interface, an annotation class or a module, it names the class,
and the value of its first registering annotation lists the interface. -/
structure Registers (f : ClassFile) (x : String × String) : Prop where
  flags : ∀ bit ∈ [9, 13, 15], f.access.testBit bit = false
  provider : ∃ c, f.className? = some c ∧ c.binary = x.2
  interface : ∃ a v i, f.HasFirst autoServiceDescriptor a ∧ a.Gives "value" v ∧ v.Lists i ∧ i.binary = x.1

theorem isInstantiable_iff : f.isInstantiable = true ↔
    (∀ bit ∈ [9, 13, 15], f.access.testBit bit = false) ∧ ¬ f.IsLeftOut := by
  rw [← all_metadata?_iff, isInstantiable, isInterface, isAnnotationClass, isModule]
  simp [and_assoc]

/-- A class file gives the pairs that it registers, unless it is left out. -/
theorem exists_providerPairs_iff {x : String × String} :
    (∃ p ∈ f.providerPairs, x = (p.1.binary, p.2.binary)) ↔ f.Registers x ∧ ¬ f.IsLeftOut := by
  simp only [mem_providerPairs_iff, isInstantiable_iff, mem_registeredFor_iff]
  constructor
  · rintro ⟨⟨i, c⟩, ⟨hclass, ⟨hflags, hkind⟩, a, v, ha, hv, hi⟩, rfl⟩
    exact ⟨⟨hflags, ⟨c, hclass, rfl⟩, a, v, i, ha, hv, hi, rfl⟩, hkind⟩
  · rintro ⟨⟨hflags, ⟨c, hclass, hc⟩, a, v, i, ha, hv, hi, hname⟩, hkind⟩
    exact ⟨(i, c), ⟨hclass, ⟨hflags, hkind⟩, a, v, ha, hv, hi⟩, Prod.ext hname.symm hc.symm⟩

end ClassFile

/-! ## Several class files -/

namespace ProviderMapping

variable {m : ProviderMapping} {entries : List ClassFileEntry}

theorem exists_foldlM_addClassFile_iff :
    (∃ m', entries.foldlM (fun m e => do return m.addClassFile (← e.parse)) m = .ok m') ↔
      ∀ entry ∈ entries, ∃ f, entry.parse = .ok f := by
  induction entries generalizing m with
  | nil => exact ⟨fun _ _ h => absurd h List.not_mem_nil, fun _ => ⟨m, rfl⟩⟩
  | cons entry entries ih =>
    rw [List.forall_mem_cons, List.foldlM_cons]
    cases entry.parse with
    | error error => exact ⟨nofun, fun ⟨⟨_, h⟩, _⟩ => absurd h nofun⟩
    | ok f => exact (ih (m := m.addClassFile f)).trans (and_iff_right ⟨f, rfl⟩).symm

/-- Providers are read off class files if each of the files can be read. -/
theorem exists_ofClassFiles_iff :
    (∃ m, ofClassFiles entries = .ok m) ↔ ∀ entry ∈ entries, ∃ f, entry.parse = .ok f :=
  exists_foldlM_addClassFile_iff

/-- The error is that of the first class file that cannot be read. -/
theorem ofClassFiles_eq_error_iff {e : MalformedClass} :
    ofClassFiles entries = .error e ↔ ∃ (front : List ClassFileEntry) (entry : ClassFileEntry)
      (behind : List ClassFileEntry), entries = front ++ entry :: behind ∧
        (∀ earlier ∈ front, ∃ f, earlier.parse = .ok f) ∧ entry.parse = .error e := by
  rw [ofClassFiles, foldlM_eq_error_iff]
  refine exists_congr fun front => exists_congr fun entry => exists_congr fun behind => and_congr_right fun _ => ?_
  have hstep : ∀ m : ProviderMapping,
      (do return m.addClassFile (← entry.parse)) = Except.error e ↔ entry.parse = .error e := by
    intro m
    cases entry.parse with
    | error error => simp [bind, Except.bind]
    | ok f => exact ⟨nofun, nofun⟩
  simp only [hstep, exists_and_right, exists_foldlM_addClassFile_iff]

/-- Whether one of several class files, of those with a property, registers a class for an interface. -/
def AnyRegisters (entries : List ClassFileEntry) (P : ClassFile → Prop) (x : String × String) : Prop :=
  ∃ entry ∈ entries, ∃ f, entry.parse = .ok f ∧ P f ∧ f.Registers x

/-- The pairs of class files are those that the files register which are not left out. -/
theorem mem_pairs_ofClassFiles_iff (h : ofClassFiles entries = .ok m) {x : String × String} :
    x ∈ m.pairs ↔ AnyRegisters entries (¬ ·.IsLeftOut) x := by
  simp only [mem_pairs_ofClassFiles h, ClassFile.exists_providerPairs_iff, AnyRegisters, and_comm]

/-- Reading providers off class files fails exactly if one of them cannot be read, with the error of the first such
file.  Otherwise the mapping holds exactly what is registered by files whose first metadata does not have the number
of a known kind other than that of a class.  So it holds exactly what is registered by files without metadata of
another kind if and only if these register also what the others do that are not left out. -/
theorem ofClassFiles_exact (entries : List ClassFileEntry) :
    (∀ e, ofClassFiles entries = .error e ↔ ∃ (front : List ClassFileEntry) (entry : ClassFileEntry)
      (behind : List ClassFileEntry), entries = front ++ entry :: behind ∧
        (∀ earlier ∈ front, ∃ f, earlier.parse = .ok f) ∧ entry.parse = .error e) ∧
    ((∃ m, ofClassFiles entries = .ok m) ↔ ∀ entry ∈ entries, ∃ f, entry.parse = .ok f) ∧
    ∀ m, ofClassFiles entries = .ok m →
      (∀ x, x ∈ m.pairs ↔ AnyRegisters entries (¬ ·.IsLeftOut) x) ∧
      ((∀ x, x ∈ m.pairs ↔ AnyRegisters entries (¬ ·.HasOtherKind) x) ↔
        ∀ x, AnyRegisters entries (fun f => f.HasOtherKind ∧ ¬ f.IsLeftOut) x →
          AnyRegisters entries (¬ ·.HasOtherKind) x) := by
  refine ⟨fun e => ofClassFiles_eq_error_iff, exists_ofClassFiles_iff, fun m hm => ?_⟩
  have hpairs : ∀ x, x ∈ m.pairs ↔ AnyRegisters entries (¬ ·.IsLeftOut) x :=
    fun x => mem_pairs_ofClassFiles_iff hm
  refine ⟨hpairs, fun hexact x hx => ?_, fun hcovered x => ⟨fun hx => ?_, fun hx => ?_⟩⟩
  · obtain ⟨entry, hentry, f, hf, ⟨-, hkept⟩, hx⟩ := hx
    exact (hexact x).mp ((hpairs x).mpr ⟨entry, hentry, f, hf, hkept, hx⟩)
  · obtain ⟨entry, hentry, f, hf, hkept, hx⟩ := (hpairs x).mp hx
    by_cases hother : f.HasOtherKind
    · exact hcovered x ⟨entry, hentry, f, hf, ⟨hother, hkept⟩, hx⟩
    · exact ⟨entry, hentry, f, hf, hother, hx⟩
  · obtain ⟨entry, hentry, f, hf, hkind, hx⟩ := hx
    exact (hpairs x).mpr ⟨entry, hentry, f, hf, fun h => hkind h.hasOtherKind, hx⟩

end ProviderMapping

/-! ### A file of an unknown kind -/

namespace UnknownKind

/-- A class that is registered for `a.S`, with metadata of a kind that is not known. -/
def spec : ClassSpec :=
  ⟨"a/P", [.visible ⟨ClassFile.metadataDescriptor, [("k", .int 6)]⟩,
    .visible ⟨ClassFile.autoServiceDescriptor, [("value", .class "La/S;")]⟩]⟩

/-- The class file of the class. -/
def entry : ClassFileEntry := ⟨"P.class", spec.build⟩

/-- The mapping of the class file. -/
def listed : ProviderMapping := ⟨[("a.S", ["a.P"])]⟩

theorem parse_entry : entry.parse = .ok spec.described := by
  have hfits : spec.Fits := by
    refine ⟨by decide +kernel, by decide +kernel, ?_, by decide, by decide, by decide, by decide, by decide⟩
    simp [spec, ClassCall.Fits, AnnotationRecord.Fits, AnnotationRecord.ElementsFit, ElementValue.Fits]
  have hparse : ClassFile.parse spec.build = .ok spec.described :=
    ByteReader.answer_of_reads (ClassSpec.reads_build hfits)
  rw [ClassFileEntry.parse, entry, hparse]

theorem ofClassFiles_entry : ProviderMapping.ofClassFiles [entry] = .ok listed := by
  rw [ProviderMapping.ofClassFiles, List.foldlM_cons, parse_entry]
  decide +kernel

theorem hasOtherKind_described : spec.described.HasOtherKind :=
  ⟨_, List.mem_cons_self .., rfl, 6, ⟨[], [], rfl, nofun⟩, by decide⟩

/-- No file without metadata of another kind registers anything. -/
theorem not_anyRegisters (x : String × String) : ¬ ProviderMapping.AnyRegisters [entry] (¬ ·.HasOtherKind) x := by
  rintro ⟨e, he, f, hf, hkind, -⟩
  obtain rfl := List.mem_singleton.mp he
  obtain rfl := Except.ok.inj (parse_entry.symm.trans hf)
  exact hkind hasOtherKind_described

theorem mem_pairs_listed : ("a.S", "a.P") ∈ listed.pairs := by decide

/-- The file is not left out, and what it registers no other file does. -/
theorem anyRegisters_despite_kind : ProviderMapping.ofClassFiles [entry] = .ok listed ∧
    ProviderMapping.AnyRegisters [entry] (¬ ·.IsLeftOut) ("a.S", "a.P") ∧
    ¬ ∀ x, ProviderMapping.AnyRegisters [entry] (fun f => f.HasOtherKind ∧ ¬ f.IsLeftOut) x →
      ProviderMapping.AnyRegisters [entry] (¬ ·.HasOtherKind) x := by
  obtain ⟨-, -, hread⟩ := ProviderMapping.ofClassFiles_exact [entry]
  obtain ⟨hpairs, hexact⟩ := hread listed ofClassFiles_entry
  refine ⟨ofClassFiles_entry, (hpairs _).mp mem_pairs_listed, fun hcovered => ?_⟩
  exact not_anyRegisters _ ((hexact.mpr hcovered _).mp mem_pairs_listed)

/-- Metadata of another kind does not always keep a class file out. -/
theorem not_forall_kinds_left_out :
    ¬ ∀ (entries : List ClassFileEntry) (m : ProviderMapping), ProviderMapping.ofClassFiles entries = .ok m →
      ∀ x, x ∈ m.pairs ↔ ProviderMapping.AnyRegisters entries (¬ ·.HasOtherKind) x :=
  fun h => not_anyRegisters _ ((h [entry] listed ofClassFiles_entry _).mp mem_pairs_listed)

end UnknownKind

end ServiceCatalog
