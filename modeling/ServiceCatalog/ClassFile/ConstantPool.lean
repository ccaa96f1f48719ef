import ServiceCatalog.ClassFile.Bytes
import ServiceCatalog.ClassFile.ModifiedUtf8

/-!
# The constant pool

A class file keeps its texts, names and numbers in a pool and refers to them by index.  Indices count
slots, of which numbers of eight bytes take two, and slot 0 is never used; so the pool is kept slot by
slot, with a mark in the slots that hold nothing.

Constants that annotations never refer to keep only their kind: `PoolItem` is a constant as it is written,
`PoolItem.constant` is what reading keeps of it.
-/

namespace ServiceCatalog

/-- The kinds of constants of which only the kind is kept. -/
inductive OpaqueKind where
  | fieldRef
  | methodRef
  | interfaceMethodRef
  | nameAndType
  | methodHandle
  | methodType
  | dynamic
  | invokeDynamic
  | module
  | package
  deriving DecidableEq, Repr

namespace OpaqueKind

/-- The tag of the kind. -/
def tag : OpaqueKind → Nat
  | fieldRef => 9
  | methodRef => 10
  | interfaceMethodRef => 11
  | nameAndType => 12
  | methodHandle => 15
  | methodType => 16
  | dynamic => 17
  | invokeDynamic => 18
  | module => 19
  | package => 20

/-- The number of bytes behind the tag. -/
def payload : OpaqueKind → Nat
  | fieldRef | methodRef | interfaceMethodRef | nameAndType | dynamic | invokeDynamic => 4
  | methodHandle => 3
  | methodType | module | package => 2

/-- The kind with a given tag. -/
def ofTag? : Nat → Option OpaqueKind
  | 9 => some fieldRef
  | 10 => some methodRef
  | 11 => some interfaceMethodRef
  | 12 => some nameAndType
  | 15 => some methodHandle
  | 16 => some methodType
  | 17 => some dynamic
  | 18 => some invokeDynamic
  | 19 => some module
  | 20 => some package
  | _ => none

@[simp] theorem ofTag?_tag (k : OpaqueKind) : ofTag? k.tag = some k := by cases k <;> rfl

end OpaqueKind

/-- What a slot of the pool holds.  Numbers with a fraction are kept by their bits. -/
inductive Constant where
  | utf8 (s : String)
  | integer (v : Int32)
  | float (bits : UInt32)
  | long (v : Int64)
  | double (bits : UInt64)
  | «class» (nameIndex : Nat)
  | string (index : Nat)
  | other (kind : OpaqueKind)
  | unusable
  deriving DecidableEq, Repr

/-- The number of slots that a constant takes. -/
def Constant.slots : Constant → Nat
  | long _ | double _ => 2
  | _ => 1

theorem Constant.slots_pos (c : Constant) : 0 < c.slots := by
  cases c <;> simp [slots]

/-- A constant as it is written, texts by their bytes and constants without a use by their payload. -/
inductive PoolItem where
  | utf8 (bytes : List UInt8)
  | integer (v : Int32)
  | float (bits : UInt32)
  | long (v : Int64)
  | double (bits : UInt64)
  | «class» (nameIndex : Nat)
  | string (index : Nat)
  | other (kind : OpaqueKind) (payload : List UInt8)
  deriving DecidableEq, Repr

namespace PoolItem

/-- What reading keeps of a written constant; none, if its text is not one. -/
def constant? : PoolItem → Option Constant
  | utf8 bytes => (decodeText? bytes).map .utf8
  | integer v => some (.integer v)
  | float bits => some (.float bits)
  | long v => some (.long v)
  | double bits => some (.double bits)
  | «class» i => some (.class i)
  | string i => some (.string i)
  | other kind _ => some (.other kind)

/-- The number of slots that the constant takes. -/
def slots : PoolItem → Nat
  | long _ | double _ => 2
  | _ => 1

/-- The bytes of the constant. -/
def encode : PoolItem → List UInt8
  | utf8 bytes => 1 :: bigEndian 2 bytes.length ++ bytes
  | integer v => 3 :: bigEndian 4 v.toUInt32.toNat
  | float bits => 4 :: bigEndian 4 bits.toNat
  | long v => 5 :: bigEndian 8 v.toUInt64.toNat
  | double bits => 6 :: bigEndian 8 bits.toNat
  | «class» i => 7 :: bigEndian 2 i
  | string i => 8 :: bigEndian 2 i
  | other kind payload => UInt8.ofNat kind.tag :: payload

/-- The number of slots that constants take. -/
def totalSlots (items : List PoolItem) : Nat := items.foldr (fun i n => i.slots + n) 0

/-- The bytes of a pool: the number of its slots, slot 0 included, and its constants. -/
def encodeAll (items : List PoolItem) : List UInt8 :=
  bigEndian 2 (totalSlots items + 1) ++ items.flatMap encode

end PoolItem

/-- A constant pool, slot by slot. -/
structure ConstantPool where
  slots : List Constant
  deriving DecidableEq, Repr

namespace ConstantPool

/-- Reads the constant in the slot with a given index. -/
def readConstant (index : Nat) : ByteReader Constant := do
  let tag ← ByteReader.number 1
  match tag with
  | 1 =>
    let bytes ← ByteReader.take (← ByteReader.number 2)
    match decodeText? bytes with
    | some s => return .utf8 s
    | none => throw (.invalidUtf8 index)
  | 3 => return .integer (UInt32.ofNat (← ByteReader.number 4)).toInt32
  | 4 => return .float (UInt32.ofNat (← ByteReader.number 4))
  | 5 => return .long (UInt64.ofNat (← ByteReader.wideNumber)).toInt64
  | 6 => return .double (UInt64.ofNat (← ByteReader.wideNumber))
  | 7 => return .class (← ByteReader.number 2)
  | 8 => return .string (← ByteReader.number 2)
  | _ =>
    match OpaqueKind.ofTag? tag with
    | some kind =>
      ByteReader.skip kind.payload
      return .other kind
    | none => throw (.unsupportedConstant tag)

/-- The slots that a constant fills. -/
def slotsOf (c : Constant) : List Constant := c :: List.replicate (c.slots - 1) .unusable

/-- Reads constants into the slots from an index up to a count.  The last constant may take a slot past
the count. -/
def readSlots (count index : Nat) : ByteReader (List Constant) :=
  if index < count then do
    let c ← readConstant index
    let others ← readSlots count (index + c.slots)
    return slotsOf c ++ others
  else return []
termination_by count - index
decreasing_by have := c.slots_pos; omega

/-- Reads a pool from its count onwards. -/
def read : ByteReader ConstantPool := do
  let count ← ByteReader.number 2
  return ⟨.unusable :: (← readSlots count 1)⟩

/-- The number of slots. -/
def size (pool : ConstantPool) : Nat := pool.slots.length

/-- Whether the pool holds nothing besides the unused slot 0. -/
def isEmpty (pool : ConstantPool) : Bool := pool.size ≤ 1

/-- The constant at an index. -/
def get (pool : ConstantPool) (index : Nat) : Except ClassFileError Constant :=
  match pool.slots[index]? with
  | none | some .unusable => .error (.invalidConstantIndex index)
  | some c => .ok c

/-- The text at an index. -/
def utf8 (pool : ConstantPool) (index : Nat) : Except ClassFileError String := do
  match ← pool.get index with
  | .utf8 s => return s
  | _ => throw (.invalidConstantIndex index)

/-- The internal name of the class at an index. -/
def className (pool : ConstantPool) (index : Nat) : Except ClassFileError String := do
  match ← pool.get index with
  | .class nameIndex => pool.utf8 nameIndex
  | _ => throw (.invalidConstantIndex index)

/-- The integer at an index. -/
def integer (pool : ConstantPool) (index : Nat) : Except ClassFileError Int32 := do
  match ← pool.get index with
  | .integer v => return v
  | _ => throw (.invalidConstantIndex index)

end ConstantPool

end ServiceCatalog
