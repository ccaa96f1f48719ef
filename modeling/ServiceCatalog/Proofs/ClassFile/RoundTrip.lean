import Mathlib.Algebra.GroupWithZero.Nat
import ServiceCatalog.Proofs.ClassFile.Elements

/-!
# Class files survive writing and reading

A class file is described by what was asked for, call by call.  If its sizes fit the format, the bytes that are
written for it are read as what was asked for: the last flags and the last superclass, and the interfaces and the
annotations in order.

* `ClassSpec.described`: the class file that is asked for.
* `ClassSpec.Fits`: the sizes that have to fit.
* `writes_apply`, `writes_calls`: one call, and calls in a row, change the parts of the file as they change what is
  asked for.
* `parse_build`: the bytes of a class file are read as what was asked for.
-/

namespace ServiceCatalog

open ByteReader PoolItem ConstantPool PoolWriter AnnotationRecord

/-! ## What is asked for -/

namespace ClassCall

/-- The flags that a call sets. -/
def access? : ClassCall → Option Nat
  | access flags => some flags
  | _ => none

/-- The superclass that a call sets. -/
def superclass? : ClassCall → Option String
  | superclass name => some name
  | _ => none

/-- The interface that a call adds. -/
def interface? : ClassCall → Option String
  | interface name => some name
  | _ => none

/-- The annotation visible at run time that a call adds. -/
def visible? : ClassCall → Option AnnotationRecord
  | visible a => some a
  | _ => none

/-- The annotation not visible at run time that a call adds. -/
def invisible? : ClassCall → Option AnnotationRecord
  | invisible a => some a
  | _ => none

/-- Whether flags fit their two bytes, and so do the numbers of values in an annotation. -/
def Fits : ClassCall → Prop
  | access flags => flags < 256 ^ 2
  | visible a | invisible a => a.Fits
  | superclass _ | interface _ => True

end ClassCall

/-- A class file with what calls ask for: the last flags and the last superclass, and all that is added. -/
def ClassFile.called (f : ClassFile) (calls : List ClassCall) : ClassFile where
  access := (calls.filterMap ClassCall.access?).getLastD f.access
  name := f.name
  superclass := ((calls.filterMap ClassCall.superclass?).map some).getLastD f.superclass
  interfaces := f.interfaces ++ calls.filterMap ClassCall.interface?
  visible := f.visible ++ calls.filterMap ClassCall.visible?
  invisible := f.invisible ++ calls.filterMap ClassCall.invisible?

theorem ClassFile.called_nil (f : ClassFile) : f.called [] = f := by
  simp [called]

/-- A class file with what one call asks for. -/
def ClassFile.change (f : ClassFile) : ClassCall → ClassFile
  | .access flags => { f with access := flags }
  | .superclass name => { f with superclass := some name }
  | .interface name => { f with interfaces := f.interfaces ++ [name] }
  | .visible a => { f with visible := f.visible ++ [a] }
  | .invisible a => { f with invisible := f.invisible ++ [a] }

theorem ClassFile.called_cons (f : ClassFile) (c : ClassCall) (calls : List ClassCall) :
    f.called (c :: calls) = (f.change c).called calls := by
  cases c <;> simp only [called, change, List.filterMap_cons, ClassCall.access?, ClassCall.superclass?,
    ClassCall.interface?, ClassCall.visible?, ClassCall.invisible?, List.map_cons, List.getLastD_cons,
    List.append_assoc, List.singleton_append]

namespace ClassSpec

/-- A public class with nothing asked for. -/
def publicClass (name : String) : ClassFile := ⟨0x21, name, some "java/lang/Object", [], [], []⟩

/-- The class file that is asked for. -/
def described (spec : ClassSpec) : ClassFile := (publicClass spec.name).called spec.calls

/-- The length of an attribute with annotations. -/
def attributeLength (annotations : List AnnotationRecord) : Nat :=
  2 + (annotations.map AnnotationRecord.size).sum

/-- Whether the sizes in a class file fit their bytes: two for the slots of the pool, for the length of a text and
for the number of anything, four for the length of an attribute. -/
structure Fits (spec : ClassSpec) : Prop where
  slots : totalSlots (spec.assemble []).2 + 1 < 256 ^ 2
  texts : ∀ item ∈ (spec.assemble []).2, item.textLength < 256 ^ 2
  calls : ∀ c ∈ spec.calls, c.Fits
  interfaces : spec.described.interfaces.length < 256 ^ 2
  visible : spec.described.visible.length < 256 ^ 2
  invisible : spec.described.invisible.length < 256 ^ 2
  visibleLength : attributeLength spec.described.visible < 256 ^ 4
  invisibleLength : attributeLength spec.described.invisible < 256 ^ 4

/-! ## The parts of a class file -/

/-- Whether an index is that of a class. -/
def ClassAt (pool : List PoolItem) (index : Nat) (name : String) : Prop :=
  (ofItems pool).className index = .ok name ∧ 0 < index ∧ index ≤ totalSlots pool

/-- Whether bytes are those of an annotation. -/
def RecordBytes (pool : List PoolItem) (bytes : List UInt8) (a : AnnotationRecord) : Prop :=
  Spells readWith a a.size pool bytes

/-- Whether parts of a class file are those of a given one. -/
structure Describes (pool : List PoolItem) (parts : Parts) (f : ClassFile) : Prop where
  access : parts.access = f.access ∧ f.access < 256 ^ 2
  name : ClassAt pool parts.name f.name
  superclass : ∃ s, f.superclass = some s ∧ ClassAt pool parts.superclass s
  interfaces : List.Forall₂ (ClassAt pool) parts.interfaces f.interfaces
  visible : List.Forall₂ (RecordBytes pool) parts.visible f.visible
  invisible : List.Forall₂ (RecordBytes pool) parts.invisible f.invisible

variable {n : Nat} {pool given : List PoolItem} {parts : Parts} {f : ClassFile}

theorem forall₂_snoc {α β : Type} {R : α → β → Prop} {l : List α} {l' : List β} {a : α} {b : β}
    (h : List.Forall₂ R l l') (hab : R a b) : List.Forall₂ R (l ++ [a]) (l' ++ [b]) :=
  List.rel_append h (.cons hab .nil)

/-- A call changes the parts as it changes the class file. -/
theorem writes_apply (parts : Parts) (f : ClassFile) {c : ClassCall} (hc : c.Fits) (given : List PoolItem) :
    Writes (apply parts c) (fun pool parts' => Describes pool parts f → Describes pool parts' (f.change c)) given := by
  cases c with
  | access flags => exact writes_pure fun pool _ h => { h with access := ⟨rfl, hc⟩ }
  | superclass name =>
    exact (writes_className name given).bind_pure fun pool index hindex h =>
      { h with superclass := ⟨name, rfl, hindex⟩ }
  | interface name =>
    exact (writes_className name given).bind_pure fun pool index hindex h =>
      { h with interfaces := forall₂_snoc h.interfaces hindex }
  | visible a =>
    exact (writes_record a hc given).bind_pure fun pool bytes hbytes h =>
      { h with visible := forall₂_snoc h.visible hbytes }
  | invisible a =>
    exact (writes_record a hc given).bind_pure fun pool bytes hbytes h =>
      { h with invisible := forall₂_snoc h.invisible hbytes }

/-- Calls change the parts as they change the class file. -/
theorem writes_calls (parts : Parts) (f : ClassFile) {calls : List ClassCall} (hcalls : ∀ c ∈ calls, c.Fits)
    (given : List PoolItem) :
    Writes (calls.foldlM apply parts)
      (fun pool parts' => Describes pool parts f → Describes pool parts' (f.called calls)) given := by
  induction calls generalizing parts f given with
  | nil =>
    rw [ClassFile.called_nil]
    exact writes_pure fun _ _ h => h
  | cons c calls ih =>
    obtain ⟨hc, hothers⟩ := List.forall_mem_cons.mp hcalls
    rw [ClassFile.called_cons]
    exact (writes_apply parts f hc given).bind fun parts' items _ =>
      (ih parts' (f.change c) hothers items).mono fun _ _ hrest hfirst h => hrest (hfirst h)

theorem writes_initial (name : String) (given : List PoolItem) :
    Writes (initial name)
      (fun pool parts => Describes pool parts (publicClass name)) given :=
  (writes_className name given).bind fun _ items _ =>
    (writes_className "java/lang/Object" items).bind_pure fun _ _ hsuperclass hname =>
      ⟨⟨rfl, show 0x21 < 256 ^ 2 by decide⟩, hname, ⟨_, rfl, hsuperclass⟩, .nil, .nil, .nil⟩

/-! ## Attributes -/

/-- Attributes of which every one is read from the bytes beside it. -/
def AttributeBytes (pool : List PoolItem) (table : List (List UInt8)) (attributes : List ClassFile.Attribute) : Prop :=
  ∀ n, List.Forall₂ (Reads n (ClassFile.readAttribute (ofItems pool))) table attributes

/-- The attributes for annotations: one that holds them, or none if there are none. -/
def attributesFor (hold : List AnnotationRecord → ClassFile.Attribute) (as : List AnnotationRecord) :
    List ClassFile.Attribute :=
  if as = [] then [] else [hold as]

theorem length_attributesFor_le (hold : List AnnotationRecord → ClassFile.Attribute) (as : List AnnotationRecord) :
    (attributesFor hold as).length ≤ 1 := by
  rw [attributesFor]
  split
  · exact Nat.zero_le 1
  · exact Nat.le_refl 1

theorem flatMap_attributesFor {hold : List AnnotationRecord → ClassFile.Attribute}
    {look : ClassFile.Attribute → List AnnotationRecord} (hnil : look (hold []) = []) (as : List AnnotationRecord) :
    (attributesFor hold as).flatMap look = look (hold as) := by
  rw [attributesFor]
  split
  · next has => rw [has, hnil, List.flatMap_nil]
  · rw [List.flatMap_cons, List.flatMap_nil, List.append_nil]

theorem reads_attributeOf_visible {pool : ConstantPool} {bytes : List UInt8} {as : List AnnotationRecord}
    (h : Reads n (readAll pool) bytes as) :
    Reads n (ClassFile.attributeOf pool ClassFile.visibleAttribute) bytes ⟨as, []⟩ := by
  rw [ClassFile.attributeOf, if_pos rfl]
  exact h.bind_pure

theorem reads_attributeOf_invisible {pool : ConstantPool} {bytes : List UInt8} {as : List AnnotationRecord}
    (h : Reads n (readAll pool) bytes as) :
    Reads n (ClassFile.attributeOf pool ClassFile.invisibleAttribute) bytes ⟨[], as⟩ := by
  rw [ClassFile.attributeOf, if_neg (by decide), if_pos rfl]
  exact h.bind_pure

/-- The bytes of annotations are as many as the annotations have. -/
theorem length_flatten_records {records : List (List UInt8)} {as : List AnnotationRecord}
    (h : List.Forall₂ (RecordBytes pool) records as) :
    records.flatten.length = (as.map AnnotationRecord.size).sum := by
  induction h with
  | nil => rfl
  | cons hfirst _ ih => rw [List.flatten_cons, List.length_append, hfirst.length, ih, List.map_cons, List.sum_cons]

theorem reads_readAll (hsize : totalSlots pool + 1 < 256 ^ 2) {records : List (List UInt8)}
    {as : List AnnotationRecord} (h : List.Forall₂ (RecordBytes pool) records as) (has : as.length < 256 ^ 2) :
    Reads n (readAll (ofItems pool)) (bigEndian 2 as.length ++ records.flatten) as := by
  refine reads_counted has (reads_times (h.imp fun bytes a hbytes => ?_))
  exact hbytes.reads hsize n (readValue (ofItems pool)) fun _ _ => rfl

/-- What is written for annotations is read as one attribute, or as none if there are no annotations. -/
theorem writes_annotationTable {name : String} {hold : List AnnotationRecord → ClassFile.Attribute}
    (hname : ∀ n pool bytes as, Reads n (readAll pool) bytes as →
      Reads n (ClassFile.attributeOf pool name) bytes (hold as))
    (records : List (List UInt8)) {as : List AnnotationRecord} (has : as.length < 256 ^ 2)
    (hlength : attributeLength as < 256 ^ 4) (given : List PoolItem) :
    Writes (annotationTable name records)
      (fun pool table => List.Forall₂ (RecordBytes pool) records as → totalSlots pool + 1 < 256 ^ 2 →
        AttributeBytes pool table (attributesFor hold as)) given := by
  cases records with
  | nil =>
    refine writes_pure fun pool _ h hsize n => ?_
    cases h
    exact .nil
  | cons first others =>
    refine (writes_textReference name given).bind_pure fun pool reference href h hsize n => ?_
    have hne : as ≠ [] := by
      rintro rfl
      cases h
    rw [attributesFor, if_neg hne]
    refine .cons ?_ .nil
    have hcount : (first :: others).length = as.length := h.length_eq
    rw [hcount, List.append_assoc]
    have hbody : (bigEndian 2 as.length ++ (first :: others).flatten).length < 256 ^ 4 := by
      rw [List.length_append, length_bigEndian, length_flatten_records h]
      exact hlength
    have hanswer := answer_of_reads (hname _ _ _ _ (reads_readAll hsize h has))
    have hreference := href.reads hsize n (readValue (ofItems pool)) fun _ _ => rfl
    exact hreference.bind ((reads_number hbody).bind ((reads_take rfl).bind_nil (reads_within hanswer)))

/-! ## The whole file -/

/-- The parts that are written, with the attributes behind them, are those of the class file that is asked for. -/
theorem writes_assemble (spec : ClassSpec) (h : spec.Fits) :
    Writes spec.assemble (fun pool bytes => totalSlots pool + 1 < 256 ^ 2 → ∃ parts table attributes,
      bytes = body parts table ∧ Describes pool parts spec.described ∧ AttributeBytes pool table attributes ∧
        attributes.length ≤ 2 ∧ attributes.flatMap ClassFile.Attribute.visible = spec.described.visible ∧
        attributes.flatMap ClassFile.Attribute.invisible = spec.described.invisible) [] := by
  refine (writes_initial spec.name []).bind fun parts items _ => ?_
  refine (writes_calls parts (publicClass spec.name) h.calls items).bind fun parts' items' _ => ?_
  refine (writes_annotationTable (fun _ _ _ _ => reads_attributeOf_visible) parts'.visible h.visible
    h.visibleLength items').bind fun table items'' _ => ?_
  refine (writes_annotationTable (fun _ _ _ _ => reads_attributeOf_invisible) parts'.invisible h.invisible
    h.invisibleLength items'').bind_pure fun pool table' hinvisible hvisible hcalls hinitial hsize => ?_
  have hparts := hcalls hinitial
  refine ⟨parts', table ++ table', _, rfl, hparts, fun n => List.rel_append (hvisible hparts.visible hsize n)
    (hinvisible hparts.invisible hsize n), ?_, ?_, ?_⟩
  · rw [List.length_append]
    exact Nat.add_le_add (length_attributesFor_le ..) (length_attributesFor_le ..)
  · rw [List.flatMap_append, flatMap_attributesFor rfl, flatMap_attributesFor rfl, List.append_nil]
  · rw [List.flatMap_append, flatMap_attributesFor rfl, flatMap_attributesFor rfl, List.nil_append]

/-- The constants of a class file that fits are read back. -/
theorem Fits.constants {spec : ClassSpec} (h : spec.Fits) :
    ∀ item ∈ (spec.assemble []).2, item.constant?.isSome ∧ item.Fits := by
  intro item hitem
  have hwritten := (writes_assemble spec h).written (fun _ hmem => absurd hmem List.not_mem_nil) item hitem
  exact ⟨hwritten.isSome_constant?, hwritten.fits h.slots (h.texts item hitem)⟩

theorem reads_expectMagic : Reads n expectMagic (bigEndian 4 magic) () := by
  refine (reads_number (by decide)).bind_nil ?_
  rw [if_neg (not_not_intro rfl)]
  exact reads_pure ()

theorem reads_className {index : Nat} {s : String} (hsize : totalSlots pool + 1 < 256 ^ 2)
    (h : ClassAt pool index s) : Reads n (lookUp (ofItems pool).className) (bigEndian 2 index) s :=
  reads_lookUp h.1 (Nat.lt_of_le_of_lt h.2.2 (Nat.lt_of_succ_lt hsize))

/-- The index of a superclass is not the one that stands for none. -/
theorem reads_readSuperclass {index : Nat} {s : String} (hsize : totalSlots pool + 1 < 256 ^ 2)
    (h : ClassAt pool index s) : Reads n (ClassFile.readSuperclass (ofItems pool)) (bigEndian 2 index) (some s) := by
  obtain ⟨hname, hpos, hle⟩ := h
  refine (reads_number (Nat.lt_of_le_of_lt hle (Nat.lt_of_succ_lt hsize))).bind_nil ?_
  cases index with
  | zero => exact absurd hpos (Nat.lt_irrefl 0)
  | succ index => exact (reads_ofExcept hname).bind_pure

/-- The bytes behind a list of indices are read back one by one. -/
theorem reads_classNames {indices : List Nat} {names : List String} (hsize : totalSlots pool + 1 < 256 ^ 2)
    (h : List.Forall₂ (ClassAt pool) indices names) (hlength : names.length < 256 ^ 2) :
    Reads n (counted (lookUp (ofItems pool).className))
      (bigEndian 2 indices.length ++ indices.flatMap (bigEndian 2)) names := by
  rw [h.length_eq, List.flatMap_def]
  refine reads_counted hlength (reads_times ?_)
  rw [List.forall₂_map_left_iff]
  exact h.imp fun _ _ => reads_className hsize

/-- A class file is a few numbers, its pool, and what refers to the pool. -/
theorem build_eq (spec : ClassSpec) : spec.build = bigEndian 4 magic ++ bigEndian 2 0 ++ bigEndian 2 majorVersion ++
    encodeAll (spec.assemble []).2 ++ (spec.assemble []).1 := rfl

theorem reads_build {spec : ClassSpec} (h : spec.Fits) : Reads n ClassFile.read spec.build spec.described := by
  obtain ⟨parts, table, attributes, hbody, hparts, hattributes, hlength, hvisible, hinvisible⟩ :=
    (writes_assemble spec h).answers _ List.prefix_rfl h.slots
  obtain ⟨superclass, hsuperclass, hsuperclassAt⟩ := hparts.superclass
  have hbuild : spec.build = bigEndian 4 magic ++ ((bigEndian 2 0 ++ bigEndian 2 majorVersion) ++
      (encodeAll (spec.assemble []).2 ++ (bigEndian 2 parts.access ++ (bigEndian 2 parts.name ++
        (bigEndian 2 parts.superclass ++ ((bigEndian 2 parts.interfaces.length ++
          parts.interfaces.flatMap (bigEndian 2)) ++ (bigEndian 2 0 ++ (bigEndian 2 0 ++
            (bigEndian 2 table.length ++ table.flatten))))))))) := by
    simp only [build_eq, hbody, body, List.append_assoc]
  have hfile : (⟨parts.access, spec.described.name, some superclass, spec.described.interfaces,
      attributes.flatMap ClassFile.Attribute.visible, attributes.flatMap ClassFile.Attribute.invisible⟩ : ClassFile) =
        spec.described := by
    rw [hparts.access.1, ← hsuperclass, hvisible, hinvisible]
  have haccess : parts.access < 256 ^ 2 := hparts.access.1 ▸ hparts.access.2
  have hnone {item : ByteReader Unit} : Reads n (counted item) (bigEndian 2 0) [] :=
    (reads_number (by decide)).bind_nil (reads_pure [])
  have htable : Reads n (counted (ClassFile.readAttribute (ofItems (spec.assemble []).2)))
      (bigEndian 2 table.length ++ table.flatten) attributes := by
    rw [(hattributes n).length_eq]
    exact reads_counted (Nat.lt_of_le_of_lt hlength (by decide)) (reads_times (hattributes n))
  rw [hbuild, ← hfile]
  refine reads_expectMagic.bind ((reads_skip rfl).bind ((reads_ofItems h.slots h.constants).bind
    ((reads_number haccess).bind ((reads_className h.slots hparts.name).bind
      ((reads_readSuperclass h.slots hsuperclassAt).bind
        ((reads_classNames h.slots hparts.interfaces h.interfaces).bind (hnone.bind (hnone.bind htable.bind_pure))))))))

/-- A class file that is written from what was asked for, and fits the format, is read as what was asked for. -/
theorem parse_build {spec : ClassSpec} (h : spec.Fits) : ClassFile.parse spec.build = .ok spec.described :=
  answer_of_reads (reads_build h)

/-- Constants of every kind, with an annotation and an array inside an array. -/
theorem parse_build_nested :
    ClassFile.parse (build ⟨"a/B", [.access 0x4021, .superclass "a/C", .interface "a/I", .superclass "a/D",
      .visible ⟨"La/M;", [("i", .int (-1)), ("f", .float 0x7FC00000), ("l", .long 5), ("d", .double 7)]⟩,
      .interface "a/J", .invisible ⟨"La/N;", [("value", .array [.string "é", .enum "La/E;" "X", .class "LI;",
        .nested ⟨"La/M;", []⟩, .array [.array []]])]⟩]⟩) =
      .ok ⟨0x4021, "a/B", some "a/D", ["a/I", "a/J"],
        [⟨"La/M;", [("i", .int (-1)), ("f", .float 0x7FC00000), ("l", .long 5), ("d", .double 7)]⟩],
        [⟨"La/N;", [("value", .array [.string "é", .enum "La/E;" "X", .class "LI;", .nested ⟨"La/M;", []⟩,
          .array [.array []]])]⟩]⟩ := by
  refine parse_build ⟨by decide +kernel, by decide +kernel, ?_, by decide, by decide, by decide, by decide, by decide⟩
  simp [ClassCall.Fits, AnnotationRecord.Fits, AnnotationRecord.ElementsFit, ElementValue.Fits, ElementValue.AllFit]

end ClassSpec

end ServiceCatalog
