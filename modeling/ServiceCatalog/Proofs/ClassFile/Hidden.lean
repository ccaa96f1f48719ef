import ServiceCatalog.Proofs.ClassFile.Addressing
import ServiceCatalog.Proofs.ClassFile.Layout

/-!
# What a class file hides

Of a class file only the header, the supertypes and two kinds of attributes show.  Its members may be replaced, and
attributes of other names put in anywhere, without changing the class file that is read.  The payload of what is passed
does not matter, even if it looks like annotations.  The name of a new attribute may need a new constant; constants are
added behind the present ones, which keep their indices, so every look-up that succeeded has the same result.

* `ClassLayout.Hides`: other members, more attributes of other names, and constants behind the present ones.
* `ConstantPool.IsFrontOf.holds`: with more constants an attribute stands for the same annotations.
* `ClassLayout.Describes.hides`, `ClassFile.parse_hides`: none of this changes the class file that is read.
-/

namespace ServiceCatalog

/-! ## What does not show -/

/-- Whether a list is another one with more elements of a kind in it. -/
inductive Inserts {α : Type} (extra : α → Prop) : List α → List α → Prop
  | nil : Inserts extra [] []
  | keep (x : α) {xs ys : List α} : Inserts extra xs ys → Inserts extra (x :: xs) (x :: ys)
  | insert {y : α} {xs ys : List α} : extra y → Inserts extra xs ys → Inserts extra xs (y :: ys)

/-- Whether an attribute has another name than the two that hold annotations. -/
def AttributeLayout.IsForeign (pool : ConstantPool) (a : AttributeLayout) : Prop :=
  ∃ name, pool.utf8 a.name.toNat = .ok name ∧ name ≠ ClassFile.visibleAttribute ∧ name ≠ ClassFile.invisibleAttribute

/-- Whether a layout differs from another one by its members, by more attributes of other names, and by constants behind
those that are there. -/
structure ClassLayout.Hides (l l' : ClassLayout) (pool pool' : ConstantPool) : Prop where
  constants : pool.IsFrontOf pool'
  access : l'.access = l.access
  name : l'.name = l.name
  superclass : l'.superclass = l.superclass
  interfaces : l'.interfaces = l.interfaces
  attributes : Inserts (AttributeLayout.IsForeign pool') l.attributes l'.attributes

namespace ConstantPool.IsFrontOf

open ByteReader AnnotationRecord

variable {pool pool' : ConstantPool} (h : pool.IsFrontOf pool')

include h

theorem superclassAt (index : Nat) :
    Persists (ClassFile.superclassAt pool index) (ClassFile.superclassAt pool' index) := by
  cases index with
  | zero => exact .pure none
  | succ index => exact (h.className (index + 1)).bind fun name => .pure (some name)

theorem follows_readAll {n : Nat} : Follows n (readAll pool) (readAll pool') :=
  (follows_readWith h (follows_readValue h n)).counted

theorem follows_attributeOf {n : Nat} (name : String) :
    Follows n (ClassFile.attributeOf pool name) (ClassFile.attributeOf pool' name) := by
  rw [ClassFile.attributeOf, ClassFile.attributeOf]
  split
  · exact h.follows_readAll.bind_pure
  · split
    · exact h.follows_readAll.bind_pure
    · exact follows_pure _

/-- With more constants an attribute stands for the same annotations. -/
theorem holds {a : AttributeLayout} {x : ClassFile.Attribute} (hx : a.Holds pool x) : a.Holds pool' x := by
  obtain ⟨name, hname, hanswer⟩ := hx
  obtain ⟨rest, hread⟩ := answer_eq_ok_iff.mp hanswer
  refine ⟨name, (h.utf8 _).ok name hname, answer_eq_ok_iff.mpr ⟨rest, ?_⟩⟩
  exact ((h.follows_attributeOf name).ok _ x rest (Nat.lt_succ_self _) hread).1

end ConstantPool.IsFrontOf

/-- An attribute of another name stands for no annotations, whatever its payload. -/
theorem AttributeLayout.IsForeign.holds {pool : ConstantPool} {a : AttributeLayout} (h : a.IsForeign pool) :
    a.Holds pool ⟨[], []⟩ := by
  obtain ⟨name, hname, hvisible, hinvisible⟩ := h
  refine ⟨name, hname, ByteReader.answer_eq_ok_iff.mpr ⟨a.payload, ?_⟩⟩
  rw [ClassFile.attributeOf, if_neg hvisible, if_neg hinvisible]
  rfl

/-- Foreign attributes add no annotations to those that there are. -/
theorem Inserts.exists_holds {pool : ConstantPool} {as as' : List AttributeLayout}
    (h : Inserts (AttributeLayout.IsForeign pool) as as') {xs : List ClassFile.Attribute}
    (hxs : List.Forall₂ (AttributeLayout.Holds pool) as xs) :
    ∃ xs', List.Forall₂ (AttributeLayout.Holds pool) as' xs' ∧
      xs'.flatMap ClassFile.Attribute.visible = xs.flatMap ClassFile.Attribute.visible ∧
      xs'.flatMap ClassFile.Attribute.invisible = xs.flatMap ClassFile.Attribute.invisible := by
  induction h generalizing xs with
  | nil => exact ⟨xs, hxs, rfl, rfl⟩
  | keep a _ ih =>
    obtain ⟨x, others, hx, hothers, rfl⟩ := List.forall₂_cons_left_iff.mp hxs
    obtain ⟨xs', hxs', hvisible, hinvisible⟩ := ih hothers
    refine ⟨x :: xs', .cons hx hxs', ?_, ?_⟩
    · rw [List.flatMap_cons, List.flatMap_cons, hvisible]
    · rw [List.flatMap_cons, List.flatMap_cons, hinvisible]
  | insert hforeign _ ih =>
    obtain ⟨xs', hxs', hvisible, hinvisible⟩ := ih hxs
    exact ⟨⟨[], []⟩ :: xs', .cons hforeign.holds hxs', hvisible, hinvisible⟩

/-- What is hidden does not change what a layout describes. -/
theorem ClassLayout.Describes.hides {l l' : ClassLayout} {pool pool' : ConstantPool} {f : ClassFile}
    (hf : l.Describes pool f) (h : l.Hides l' pool pool') : l'.Describes pool' f := by
  obtain ⟨xs, hxs, hvisible, hinvisible⟩ := hf.attributes
  obtain ⟨xs', hxs', hvisible', hinvisible'⟩ := h.attributes.exists_holds (hxs.imp fun _ _ => h.constants.holds)
  refine ⟨?_, ?_, ?_, ?_, xs', hxs', hvisible'.trans hvisible, hinvisible'.trans hinvisible⟩
  · rw [h.access, hf.access]
  · rw [h.name]
    exact (h.constants.className _).ok _ hf.name
  · rw [h.superclass]
    exact (h.constants.superclassAt _).ok _ hf.superclass
  · rw [h.interfaces]
    exact hf.interfaces.imp fun i name hname => (h.constants.className _).ok name hname

/-- Whatever is read as a class file has a layout, and in any layout that it has the members may be replaced and
attributes of other names put in, with any payload, and with constants behind the present ones for their names: the same
class file is read. -/
theorem ClassFile.parse_hides {bytes : List UInt8} {f : ClassFile} (h : parse bytes = .ok f) :
    (∃ l : ClassLayout, ∃ pool rest, l.WellFormed pool ∧ bytes = l.encode ++ rest) ∧
      ∀ (l : ClassLayout) pool rest, l.WellFormed pool → bytes = l.encode ++ rest →
        ∀ (l' : ClassLayout) pool' rest', l'.WellFormed pool' → l.Hides l' pool pool' →
          parse (l'.encode ++ rest') = .ok f := by
  obtain ⟨left, hread⟩ := ByteReader.answer_eq_ok_iff.mp h
  constructor
  · obtain ⟨l, pool, hl, hbytes⟩ := exists_layout hread
    exact ⟨l, pool, left, hl, hbytes⟩
  · rintro l pool rest hl rfl l' pool' rest' hl' hhides
    have hdescribes : l.Describes pool f := ((answers_read hl rest f left).mp hread).2
    exact ByteReader.answer_eq_ok_iff.mpr ⟨rest', (answers_read hl' rest' f rest').mpr ⟨rfl, hdescribes.hides hhides⟩⟩

/-- Constants that are added keep the pool as its front. -/
theorem PoolEntry.isFrontOf_append (entries more : List PoolEntry) :
    (pool entries).IsFrontOf (pool (entries ++ more)) := by
  refine (List.prefix_cons_inj _).mpr ?_
  rw [List.map_append, ConstantPool.slotsOfAll_append]
  exact List.prefix_append ..

/-! ### A payload that looks like annotations -/

namespace LooksAnnotated

open ByteReader

/-- The texts of the file, and the entry of the class. -/
def entries : List PoolEntry :=
  [.utf8 (utf8Bytes "A"), .class 1, .utf8 (utf8Bytes "RuntimeVisibleAnnotations"), .utf8 (utf8Bytes "LM;")]

/-- One annotation without values. -/
def payload : List UInt8 := [0, 1, 0, 4, 0, 0]

/-- A class with an annotation and no members. -/
def plain : ClassLayout :=
  ⟨52, PoolEntry.encodeAll entries, 0x21, 2, 0, [], [], [], [⟨3, payload⟩]⟩

/-- The name of other attributes. -/
def code : PoolEntry := .utf8 (utf8Bytes "Code")

/-- The class with members, and with attributes that have the payload of annotations and another name. -/
def full : ClassLayout :=
  ⟨52, PoolEntry.encodeAll (entries ++ [code]), 0x21, 2, 0, [], [⟨2, 1, 4, []⟩],
    [⟨1, 1, 4, [⟨5, payload⟩, ⟨3, payload⟩]⟩], [⟨5, payload⟩, ⟨3, payload⟩, ⟨5, []⟩]⟩

/-- The class file that is read. -/
def file : ClassFile := ⟨0x21, "A", none, [], [⟨"LM;", []⟩], []⟩

theorem valid_entries_code : ∀ e ∈ entries ++ [code], e.Valid := by
  have htext : ∀ s, (utf8Bytes s).length < 65536 → PoolEntry.Valid (.utf8 (utf8Bytes s)) :=
    fun s hs => ⟨hs, Option.isSome_of_eq_some (decodeText?_utf8Bytes s)⟩
  have hclass : PoolEntry.Valid (.class 1) := trivial
  simp only [entries, code, List.cons_append, List.nil_append, List.forall_mem_cons]
  exact ⟨htext _ (by decide +kernel), hclass, htext _ (by decide +kernel), htext _ (by decide +kernel),
    htext _ (by decide +kernel), nofun⟩

theorem wellFormed_plain : plain.WellFormed (PoolEntry.pool entries) := by
  have hread := PoolEntry.reads_pool (n := 100) (fun e he => valid_entries_code e (List.mem_append_left _ he))
    (by decide) [] (by decide +kernel)
  rw [List.append_nil] at hread
  exact ⟨hread, by decide, by decide, by decide, by decide⟩

theorem wellFormed_full : full.WellFormed (PoolEntry.pool (entries ++ [code])) := by
  have hread := PoolEntry.reads_pool (n := 100) valid_entries_code (by decide) [] (by decide +kernel)
  rw [List.append_nil] at hread
  exact ⟨hread, by decide, by decide, by decide, by decide⟩

theorem utf8_entries {index : Nat} {s : String} (h : PoolEntry.At (entries ++ [code]) index (.utf8 (utf8Bytes s))) :
    (PoolEntry.pool (entries ++ [code])).utf8 index = .ok s :=
  ConstantPool.utf8_ofItems (PoolEntry.at_map_item_iff.mpr ⟨_, h, rfl⟩)

theorem describes_plain : plain.Describes (PoolEntry.pool entries) file := by
  have hname : (PoolEntry.pool entries).className 2 = .ok "A" :=
    ConstantPool.className_ofItems ⟨[], _, rfl, rfl⟩ ⟨[.utf8 (utf8Bytes "A")], _, rfl, rfl⟩
  have hvisible : (PoolEntry.pool entries).utf8 3 = .ok ClassFile.visibleAttribute :=
    ConstantPool.utf8_ofItems ⟨[.utf8 (utf8Bytes "A"), .class 1], _, rfl, rfl⟩
  have hdescriptor : (PoolEntry.pool entries).utf8 4 = .ok "LM;" :=
    ConstantPool.utf8_ofItems ⟨(entries.take 3).map PoolEntry.item, _, rfl, rfl⟩
  have hnone : ∀ n, Reads n (counted (AnnotationRecord.readElement (PoolEntry.pool entries)
      (AnnotationRecord.readValue (PoolEntry.pool entries)))) (bigEndian 2 0) [] :=
    fun n => (reads_number (by decide)).bind_nil (reads_pure [])
  have hrecord : ∀ n, Reads n (AnnotationRecord.read (PoolEntry.pool entries)) [0, 4, 0, 0] ⟨"LM;", []⟩ :=
    fun n => (PoolWriter.reads_lookUp hdescriptor (by decide)).bind (hnone n).bind_pure
  have hpayload : payload = bigEndian 2 1 ++ [0, 4, 0, 0] := by decide
  have hrecords : ∀ n, Reads n (AnnotationRecord.readAll (PoolEntry.pool entries)) payload [⟨"LM;", []⟩] := by
    intro n
    have htimes : Reads n (times 1 (AnnotationRecord.read (PoolEntry.pool entries))) [0, 4, 0, 0] [⟨"LM;", []⟩] :=
      (hrecord n).bind_pure
    rw [hpayload]
    exact (reads_number (by decide)).bind htimes
  have hholds : AttributeLayout.Holds (PoolEntry.pool entries) ⟨3, payload⟩ ⟨[⟨"LM;", []⟩], []⟩ :=
    ⟨_, hvisible, answer_of_reads (ClassSpec.reads_attributeOf_visible (hrecords _))⟩
  exact ⟨rfl, hname, rfl, .nil, _, .cons hholds .nil, rfl, rfl⟩

theorem hides_full : plain.Hides full (PoolEntry.pool entries) (PoolEntry.pool (entries ++ [code])) := by
  have hcode : AttributeLayout.IsForeign (PoolEntry.pool (entries ++ [code])) ⟨5, payload⟩ :=
    ⟨"Code", utf8_entries ⟨entries, [], rfl, rfl⟩, by decide, by decide⟩
  have hempty : AttributeLayout.IsForeign (PoolEntry.pool (entries ++ [code])) ⟨5, []⟩ := hcode
  refine ⟨?_, rfl, rfl, rfl, rfl, ?_⟩
  · exact PoolEntry.isFrontOf_append entries [code]
  · exact .insert hcode (.keep _ (.insert hempty .nil))

/-- The class with members and other attributes is read as the one without them. -/
theorem parse_full : ClassFile.parse (plain.encode ++ []) = .ok file ∧ plain.WellFormed (PoolEntry.pool entries) ∧
    full.WellFormed (PoolEntry.pool (entries ++ [code])) ∧
    plain.Hides full (PoolEntry.pool entries) (PoolEntry.pool (entries ++ [code])) ∧
    ClassFile.parse (full.encode ++ []) = .ok file := by
  have hparse : ClassFile.parse (plain.encode ++ []) = .ok file :=
    ByteReader.answer_eq_ok_iff.mpr
      ⟨[], (ClassFile.answers_read wellFormed_plain [] file []).mpr ⟨rfl, describes_plain⟩⟩
  exact ⟨hparse, wellFormed_plain, wellFormed_full, hides_full, (ClassFile.parse_hides hparse).2 plain _ []
    wellFormed_plain rfl full _ [] wellFormed_full hides_full⟩

end LooksAnnotated

end ServiceCatalog
