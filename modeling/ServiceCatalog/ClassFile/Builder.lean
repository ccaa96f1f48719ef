import ServiceCatalog.ClassFile.Basic

/-!
# Writing class files

A `ClassSpec` describes a class file by what was asked for, call by call: flags, supertypes and
annotations.  Its bytes are assembled in one pass that fills the constant pool on the way.  Texts are
shared, a text asked for twice has one place in the pool; everything else gets a place of its own.

The pool is a list of `PoolItem`s, from which index and bytes of each constant follow.
-/

namespace ServiceCatalog

/-- What can be asked of a class file. -/
inductive ClassCall where
  | access (flags : Nat)
  | superclass (name : String)
  | interface (name : String)
  | visible (a : AnnotationRecord)
  | invisible (a : AnnotationRecord)

/-- A class file by its internal name and what was asked for, in order. -/
structure ClassSpec where
  name : String
  calls : List ClassCall

/-- The call for the annotation that holds the kind of declaration. -/
def ClassCall.metadata (kind : MetadataKind) : ClassCall :=
  visible ⟨ClassFile.metadataDescriptor, [("k", .int kind.code)]⟩

/-! ## Filling the pool -/

/-- A function that adds constants to a pool. -/
abbrev PoolWriter (α : Type) := StateM (List PoolItem) α

namespace PoolWriter

/-- The index of the first constant that is equal to a given one, with slots counted from an index. -/
def indexOf? (item : PoolItem) : Nat → List PoolItem → Option Nat
  | _, [] => none
  | index, i :: items => if i = item then some index else indexOf? item (index + i.slots) items

/-- Adds a constant and answers its index. -/
def add (item : PoolItem) : PoolWriter Nat := fun items => (PoolItem.totalSlots items + 1, items ++ [item])

/-- The index of a text, which is added if the pool has it not yet. -/
def text (s : String) : PoolWriter Nat := fun items =>
  let item := PoolItem.utf8 (utf8Bytes s)
  match indexOf? item 1 items with
  | some index => (index, items)
  | none => add item items

/-- The index of a new entry for a class. -/
def className (name : String) : PoolWriter Nat := do
  add (.class (← text name))

/-- The bytes of an index. -/
def reference (index : Nat) : List UInt8 := bigEndian 2 index

/-- The bytes of a reference to a text. -/
def textReference (s : String) : PoolWriter (List UInt8) := do
  return reference (← text s)

/-- The bytes of a tag. -/
def tag (c : Char) : List UInt8 := [UInt8.ofNat c.toNat]

/-- The bytes of a reference to a new number behind a tag. -/
def numberReference (c : Char) (item : PoolItem) : PoolWriter (List UInt8) := do
  return tag c ++ reference (← add item)

mutual

/-- The bytes of a value. -/
def value : ElementValue → PoolWriter (List UInt8)
  | .int v => numberReference 'I' (.integer v)
  | .float bits => numberReference 'F' (.float bits)
  | .long v => numberReference 'J' (.long v)
  | .double bits => numberReference 'D' (.double bits)
  | .string s => do return tag 's' ++ (← textReference s)
  | .enum type name => do
    let typeBytes ← textReference type
    return tag 'e' ++ typeBytes ++ (← textReference name)
  | .class descriptor => do return tag 'c' ++ (← textReference descriptor)
  | .nested a => do return tag '@' ++ (← record a)
  | .array vs => do return tag '[' ++ bigEndian 2 vs.length ++ (← values vs)

/-- The bytes of several values. -/
def values : List ElementValue → PoolWriter (List UInt8)
  | [] => return []
  | v :: vs => do
    let first ← value v
    return first ++ (← values vs)

/-- The bytes of an annotation. -/
def record : AnnotationRecord → PoolWriter (List UInt8)
  | ⟨descriptor, es⟩ => do
    let descriptorBytes ← textReference descriptor
    return descriptorBytes ++ bigEndian 2 es.length ++ (← elements es)

/-- The bytes of several named values. -/
def elements : List (String × ElementValue) → PoolWriter (List UInt8)
  | [] => return []
  | (name, v) :: es => do
    let nameBytes ← textReference name
    let valueBytes ← value v
    return nameBytes ++ valueBytes ++ (← elements es)

end

end PoolWriter

/-! ## Assembling the file -/

namespace ClassSpec

/-- The parts of a class file, with references into the pool. -/
structure Parts where
  access : Nat
  name : Nat
  superclass : Nat
  interfaces : List Nat
  visible : List (List UInt8)
  invisible : List (List UInt8)

/-- The parts of a public class with nothing asked for. -/
def initial (name : String) : PoolWriter Parts := do
  let name ← PoolWriter.className name
  let superclass ← PoolWriter.className "java/lang/Object"
  return ⟨0x21, name, superclass, [], [], []⟩

/-- The parts after one more call. -/
def apply (parts : Parts) : ClassCall → PoolWriter Parts
  | .access flags => return { parts with access := flags }
  | .superclass name => do return { parts with superclass := ← PoolWriter.className name }
  | .interface name => do
    return { parts with interfaces := parts.interfaces ++ [← PoolWriter.className name] }
  | .visible a => do return { parts with visible := parts.visible ++ [← PoolWriter.record a] }
  | .invisible a => do return { parts with invisible := parts.invisible ++ [← PoolWriter.record a] }

/-- The bytes of an attribute with annotations; none, if there are no annotations. -/
def annotationTable (name : String) (annotations : List (List UInt8)) : PoolWriter (List (List UInt8)) := do
  if annotations.isEmpty then return []
  else
    let body := bigEndian 2 annotations.length ++ annotations.flatten
    return [(← PoolWriter.textReference name) ++ bigEndian 4 body.length ++ body]

/-- The bytes behind the pool. -/
def body (parts : Parts) (attributes : List (List UInt8)) : List UInt8 :=
  bigEndian 2 parts.access ++ bigEndian 2 parts.name ++ bigEndian 2 parts.superclass ++
    bigEndian 2 parts.interfaces.length ++ parts.interfaces.flatMap (bigEndian 2) ++
    bigEndian 2 0 ++ bigEndian 2 0 ++ bigEndian 2 attributes.length ++ attributes.flatten

/-- The bytes behind the pool of a class file. -/
def assemble (spec : ClassSpec) : PoolWriter (List UInt8) := do
  let parts ← spec.calls.foldlM apply (← initial spec.name)
  let visible ← annotationTable ClassFile.visibleAttribute parts.visible
  let invisible ← annotationTable ClassFile.invisibleAttribute parts.invisible
  return body parts (visible ++ invisible)

/-- The version of the format that is written. -/
def majorVersion : Nat := 52

/-- The bytes of the class file. -/
def build (spec : ClassSpec) : List UInt8 :=
  let (body, pool) := spec.assemble []
  bigEndian 4 ByteReader.magic ++ bigEndian 2 0 ++ bigEndian 2 majorVersion ++
    PoolItem.encodeAll pool ++ body

end ClassSpec

end ServiceCatalog
