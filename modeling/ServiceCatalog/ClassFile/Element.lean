import ServiceCatalog.ClassFile.ConstantPool

/-!
# Annotations in class files

An annotation in a class file is the descriptor of its class and a list of named values, and a value may
again be an annotation or an array of values.  Values refer to the constant pool for everything but their
structure.
-/

namespace ServiceCatalog

mutual

/-- A value of an annotation.  Bytes, characters, shorts and truth values are written as integers. -/
inductive ElementValue where
  | int (v : Int32)
  | long (v : Int64)
  | float (bits : UInt32)
  | double (bits : UInt64)
  | string (s : String)
  | enum (type name : String)
  | «class» (descriptor : String)
  | nested (a : AnnotationRecord)
  | array (values : List ElementValue)

/-- An annotation: the descriptor of its class and its values by name. -/
structure AnnotationRecord where
  descriptor : String
  elements : List (String × ElementValue)

end

instance : Inhabited ElementValue := ⟨.array []⟩

instance : Inhabited AnnotationRecord := ⟨⟨"", []⟩⟩

namespace ElementValue

/-- The values of an array. -/
def array? : ElementValue → Option (List ElementValue)
  | array values => some values
  | _ => none

/-- The descriptor of a class literal. -/
def class? : ElementValue → Option String
  | «class» descriptor => some descriptor
  | _ => none

/-- The integer. -/
def int? : ElementValue → Option Int32
  | int v => some v
  | _ => none

end ElementValue

/-- The first value with a given name. -/
def AnnotationRecord.element? (a : AnnotationRecord) (name : String) : Option ElementValue :=
  a.elements.lookup name

namespace AnnotationRecord

/-- Takes an index and answers what a look-up finds there. -/
def lookUp {α : Type} (find : Nat → Except ClassFileError α) : ByteReader α := do
  ByteReader.ofExcept (find (← ByteReader.number 2))

/-- The value for a number of a kind other than integer. -/
def numberAt (pool : ConstantPool) (index : Nat) : Except ClassFileError ElementValue := do
  match ← pool.get index with
  | .long v => return .long v
  | .float bits => return .float bits
  | .double bits => return .double bits
  | _ => throw (.invalidConstantIndex index)

section Readers

variable (pool : ConstantPool) (value : ByteReader ElementValue)

/-- Reads a name and a value. -/
def readElement : ByteReader (String × ElementValue) := do
  let name ← lookUp pool.utf8
  return (name, ← value)

/-- Reads an annotation, given a reader for its values. -/
def readWith : ByteReader AnnotationRecord := do
  let descriptor ← lookUp pool.utf8
  return ⟨descriptor, ← ByteReader.counted (readElement pool value)⟩

/-- Reads a value, given a reader for the values inside it. -/
def readValueWith : ByteReader ElementValue := do
  let tag := Char.ofNat (← ByteReader.number 1)
  match tag with
  | 'B' | 'C' | 'I' | 'S' | 'Z' => return .int (← lookUp pool.integer)
  | 'J' | 'F' | 'D' => lookUp (numberAt pool)
  | 's' => return .string (← lookUp pool.utf8)
  | 'e' =>
    let type ← lookUp pool.utf8
    return .enum type (← lookUp pool.utf8)
  | 'c' => return .class (← lookUp pool.utf8)
  | '@' => return .nested (← readWith pool value)
  | '[' => return .array (← ByteReader.counted value)
  | _ => throw (.unsupportedElementTag tag)

end Readers

/-- Reads a value. -/
def readValue (pool : ConstantPool) (bytes : List UInt8) :
    EStateM.Result ClassFileError (List UInt8) ElementValue :=
  readValueWith pool (ByteReader.below bytes fun rest _ => readValue pool rest) bytes
termination_by bytes.length

/-- Reads an annotation. -/
def read (pool : ConstantPool) : ByteReader AnnotationRecord := readWith pool (readValue pool)

/-- Reads a counted list of annotations. -/
def readAll (pool : ConstantPool) : ByteReader (List AnnotationRecord) := ByteReader.counted (read pool)

end AnnotationRecord

end ServiceCatalog
