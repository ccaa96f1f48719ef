import ServiceCatalog.ClassFile.Basic

/-!
# The layout of class files

A class file is its version, its constant pool, a few indices, and tables of fields, methods and attributes, each table
behind the number of its entries and each attribute behind the number of its bytes.  `ClassLayout` keeps all of this,
also what reading passes: the members of the class, and attributes of any name with any payload.
-/

namespace ServiceCatalog

/-- An index as it is written. -/
def indexBytes (i : UInt16) : List UInt8 := bigEndian 2 i.toNat

/-- A table: the number of entries and the bytes of each. -/
def tableBytes {α : Type} (encode : α → List UInt8) (entries : List α) : List UInt8 :=
  bigEndian 2 entries.length ++ entries.flatMap encode

/-- An attribute with the index of its name. -/
structure AttributeLayout where
  name : UInt16
  payload : List UInt8

namespace AttributeLayout

/-- The bytes of the attribute. -/
def encode (a : AttributeLayout) : List UInt8 := indexBytes a.name ++ (bigEndian 4 a.payload.length ++ a.payload)

/-- Whether the number of bytes fits its four bytes. -/
def Fits (a : AttributeLayout) : Prop := a.payload.length < UInt32.size

instance (a : AttributeLayout) : Decidable a.Fits := inferInstanceAs (Decidable (_ < _))

end AttributeLayout

/-- A field or a method. -/
structure MemberLayout where
  access : UInt16
  name : UInt16
  descriptor : UInt16
  attributes : List AttributeLayout

namespace MemberLayout

/-- The bytes of the member. -/
def encode (m : MemberLayout) : List UInt8 :=
  (indexBytes m.access ++ indexBytes m.name ++ indexBytes m.descriptor) ++
    tableBytes AttributeLayout.encode m.attributes

/-- Whether the numbers of attributes and of their bytes fit. -/
def Fits (m : MemberLayout) : Prop := m.attributes.length < UInt16.size ∧ ∀ a ∈ m.attributes, a.Fits

instance (m : MemberLayout) : Decidable m.Fits := inferInstanceAs (Decidable (_ ∧ _))

end MemberLayout

/-- A class file, part by part; the constant pool by its bytes, with its count in front. -/
structure ClassLayout where
  version : UInt32
  constants : List UInt8
  access : UInt16
  name : UInt16
  superclass : UInt16
  interfaces : List UInt16
  fields : List MemberLayout
  methods : List MemberLayout
  attributes : List AttributeLayout

namespace ClassLayout

/-- The bytes of the class file. -/
def encode (l : ClassLayout) : List UInt8 :=
  bigEndian 4 ByteReader.magic ++ (bigEndian 4 l.version.toNat ++ (l.constants ++ (indexBytes l.access ++
    (indexBytes l.name ++ (indexBytes l.superclass ++ (tableBytes indexBytes l.interfaces ++
      (tableBytes MemberLayout.encode l.fields ++ (tableBytes MemberLayout.encode l.methods ++
        tableBytes AttributeLayout.encode l.attributes))))))))

/-- Whether the parts are ones of a class file: the constant pool can be read, and all numbers fit their bytes. -/
structure WellFormed (l : ClassLayout) (pool : ConstantPool) : Prop where
  constants : ConstantPool.read l.constants = .ok pool []
  interfaces : l.interfaces.length < UInt16.size
  fields : l.fields.length < UInt16.size ∧ ∀ m ∈ l.fields, m.Fits
  methods : l.methods.length < UInt16.size ∧ ∀ m ∈ l.methods, m.Fits
  attributes : l.attributes.length < UInt16.size ∧ ∀ a ∈ l.attributes, a.Fits

end ClassLayout

end ServiceCatalog
