import ServiceCatalog.ClassFile.Element
import ServiceCatalog.Name.ClassName

/-!
# Class files

What is kept of a class file: its flags, its name, its supertypes and the annotations of the class itself.
Fields and methods are passed, and so is every attribute but the two that hold annotations at run time.

The Kotlin compiler annotates every class file with the kind of declaration it stands for;
`ClassFile.metadata?` reads it.
-/

namespace ServiceCatalog

/-- The kinds of declarations that a class file can stand for. -/
inductive MetadataKind where
  | «class»
  | fileFacade
  | syntheticClass
  | multifileClassFacade
  | multifileClassPart
  deriving DecidableEq, Repr

namespace MetadataKind

/-- The number of the kind. -/
def code : MetadataKind → Int32
  | «class» => 1
  | fileFacade => 2
  | syntheticClass => 3
  | multifileClassFacade => 4
  | multifileClassPart => 5

/-- All kinds. -/
def all : List MetadataKind :=
  [«class», fileFacade, syntheticClass, multifileClassFacade, multifileClassPart]

/-- The kind with a given number. -/
def ofCode? (v : Int32) : Option MetadataKind := all.find? fun k => k.code = v

@[simp] theorem ofCode?_code (k : MetadataKind) : ofCode? k.code = some k := by cases k <;> decide

end MetadataKind

/-- A class file. -/
structure ClassFile where
  access : Nat
  name : String
  superclass : Option String
  interfaces : List String
  visible : List AnnotationRecord
  invisible : List AnnotationRecord

namespace ClassFile

/-- The name of the attribute with the annotations that are visible at run time. -/
def visibleAttribute : String := "RuntimeVisibleAnnotations"

/-- The name of the attribute with the annotations that are not visible at run time. -/
def invisibleAttribute : String := "RuntimeInvisibleAnnotations"

/-- The descriptor of the annotation that holds the kind of declaration. -/
def metadataDescriptor : String := "Lkotlin/Metadata;"

/-! ## Reading -/

/-- Passes an attribute of a field or a method. -/
def skipAttribute : ByteReader Unit := do
  ByteReader.skip 2
  ByteReader.skip (← ByteReader.number 4)

/-- Passes a field or a method with its attributes. -/
def skipMember : ByteReader Unit := do
  ByteReader.skip 6
  let _ ← ByteReader.counted skipAttribute

/-- Annotations of a class, those visible at run time apart from the others. -/
structure Attribute where
  visible : List AnnotationRecord
  invisible : List AnnotationRecord

/-- The annotations that the body of an attribute holds. -/
def attributeOf (pool : ConstantPool) (name : String) : ByteReader Attribute := do
  if name = visibleAttribute then return ⟨← AnnotationRecord.readAll pool, []⟩
  else if name = invisibleAttribute then return ⟨[], ← AnnotationRecord.readAll pool⟩
  else return ⟨[], []⟩

/-- Reads an attribute of the class.  Its length bounds what its body may hold. -/
def readAttribute (pool : ConstantPool) : ByteReader Attribute := do
  let name ← AnnotationRecord.lookUp pool.utf8
  let body ← ByteReader.take (← ByteReader.number 4)
  ByteReader.within body (attributeOf pool name)

/-- Reads the name of the superclass; index 0 stands for none. -/
def readSuperclass (pool : ConstantPool) : ByteReader (Option String) := do
  match ← ByteReader.number 2 with
  | 0 => return none
  | index => some <$> ByteReader.ofExcept (pool.className index)

/-- Reads a class file. -/
def read : ByteReader ClassFile := do
  ByteReader.expectMagic
  ByteReader.skip 4
  let pool ← ConstantPool.read
  let access ← ByteReader.number 2
  let name ← AnnotationRecord.lookUp pool.className
  let superclass ← readSuperclass pool
  let interfaces ← ByteReader.counted (AnnotationRecord.lookUp pool.className)
  let _ ← ByteReader.counted skipMember
  let _ ← ByteReader.counted skipMember
  let attributes ← ByteReader.counted (readAttribute pool)
  return ⟨access, name, superclass, interfaces, attributes.flatMap Attribute.visible,
    attributes.flatMap Attribute.invisible⟩

/-- The class file that bytes begin with. -/
def parse (bytes : List UInt8) : Except ClassFileError ClassFile := read.answer bytes

/-! ## Questions -/

/-- The class; none for anonymous and local ones. -/
def className? (f : ClassFile) : Option ClassName := ClassName.ofInternal? f.name

/-- The internal names of the superclass and of the interfaces. -/
def supertypes (f : ClassFile) : List String := f.superclass.toList ++ f.interfaces

/-- All annotations of the class, those visible at run time first. -/
def annotations (f : ClassFile) : List AnnotationRecord := f.visible ++ f.invisible

/-- The first annotation with a given descriptor. -/
def find? (f : ClassFile) (descriptor : String) : Option AnnotationRecord :=
  f.annotations.find? fun a => a.descriptor = descriptor

/-- Whether the class is an interface. -/
def isInterface (f : ClassFile) : Bool := f.access.testBit 9

/-- Whether the class is an annotation class. -/
def isAnnotationClass (f : ClassFile) : Bool := f.access.testBit 13

/-- Whether the class is an enum class. -/
def isEnum (f : ClassFile) : Bool := f.access.testBit 14

/-- Whether the file describes a module. -/
def isModule (f : ClassFile) : Bool := f.access.testBit 15

/-- The number of the kind of declaration; 1, that of a class, if the annotation names none. -/
def metadataCode? (f : ClassFile) : Option Int32 :=
  (f.find? metadataDescriptor).map fun a => ((a.element? "k").bind ElementValue.int?).getD 1

/-- The kind of declaration that the class file stands for, if the Kotlin compiler wrote it and the kind
is known. -/
def metadata? (f : ClassFile) : Option MetadataKind := f.metadataCode?.bind MetadataKind.ofCode?

end ClassFile

end ServiceCatalog
