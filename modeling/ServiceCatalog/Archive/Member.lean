import ServiceCatalog.Archive.Checksum
import ServiceCatalog.Archive.Name
import ServiceCatalog.ClassFile.Bytes
import ServiceCatalog.ClassFile.ModifiedUtf8

/-!
# Members of an archive

The directory of an archive has an entry for every member, and an entry ends in extra fields, each with a
kind, a length and as many bytes.  Some fields correct the entry: numbers that have no place in it, and its
name and comment in UTF-8.  Others, times and the parameters of a cipher, must only be well-formed, and
unknown ones are passed.  A field that is cut off ends the fields of its entry, and what was corrected
before stays so.

* `ArchiveMember.readFields`: the entry as its fields correct it.
* `ArchiveMember.ofEntry?`: a member, and the length of its entry.
-/

namespace ServiceCatalog

/-- A member of an archive, as the directory describes it. -/
structure ArchiveMember where
  name : String
  /-- The name as it is written. -/
  nameBytes : List UInt8
  comment : String
  /-- Whether the member is a link to another file. -/
  isLink : Bool
  isEncrypted : Bool
  /-- Whether there are the parameters of a cipher. -/
  hasCipher : Bool
  method : Nat
  checksum : UInt32
  size : Nat
  packedSize : Nat
  /-- Where the header of the member is. -/
  position : Nat
  deriving DecidableEq, Repr

/-- The number of a given width at a given place, its lowest byte first. -/
def numberAt (bytes : List UInt8) (position width : Nat) : Nat :=
  ofBigEndian ((bytes.drop position).take width).reverse

/-! ## Extra fields -/

/-- Why the extra fields of an entry cannot be read on. -/
inductive FieldFault where
  /-- The field is longer than what is left. -/
  | cutOff
  /-- The field is not one of its kind. -/
  | malformed
  deriving DecidableEq, Repr

/-- A member, and the extra fields that are still to be read. -/
structure FieldState where
  member : ArchiveMember
  rest : List UInt8

/-- A reader of extra fields. -/
abbrev FieldReader (α : Type) := EStateM FieldFault FieldState α

namespace FieldReader

/-- Takes a number of bytes. -/
def take (n : Nat) : FieldReader (List UInt8) := fun s =>
  let front := s.rest.take n
  if front.length = n then .ok front { s with rest := s.rest.drop n } else .error .cutOff s

/-- Passes a number of bytes. -/
def skip (n : Nat) : FieldReader Unit := do
  let _ ← take n

/-- Takes a number of a given width. -/
def number (width : Nat) : FieldReader Nat := do
  return numberAt (← take width) 0 width

/-- Fails unless a condition holds. -/
def require (p : Prop) [Decidable p] : FieldReader Unit := do
  if ¬ p then throw .malformed

/-- Corrects the member. -/
def correct (change : ArchiveMember → ArchiveMember) : FieldReader Unit := modify fun s =>
  { s with member := change s.member }

/-- The number that stands for one which has no place in four bytes. -/
def noPlace : Nat := 0xFFFFFFFF

/-- The number of bytes of a field with all wide numbers. -/
def allWide : Nat := 24

/-- Takes a wide number, if the field has all of them or the entry has no place for this one, and says how
many bytes that took. -/
def wideNumber (length : Nat) (current : ArchiveMember → Nat)
    (change : Nat → ArchiveMember → ArchiveMember) : FieldReader Nat := do
  if allWide ≤ length ∨ current (← get).member = noPlace then
    let n ← number 8
    correct (change n)
    return 8
  else return 0

/-- A field with wide numbers: the size, the packed size and the place of the member. -/
def wideNumbers (length : Nat) : FieldReader Unit := do
  let first ← wideNumber length ArchiveMember.size fun n m => { m with size := n }
  let second ← wideNumber length ArchiveMember.packedSize fun n m => { m with packedSize := n }
  let third ← wideNumber length ArchiveMember.position fun n m => { m with position := n }
  require (first + second + third ≤ length)
  skip (length - (first + second + third))

/-- A field with times, each in eight bytes. -/
def longTimes (length : Nat) : FieldReader Unit := do
  require (length = 32)
  skip 4
  require ((← number 2) = 1)
  require ((← number 2) = 24)
  skip 24

/-- A field with times, each in four bytes.  Its first byte tells which of three times there are, or were
before all but one were left out. -/
def shortTimes (length : Nat) : FieldReader Unit := do
  let given ← number 1
  require (given < 8 ∧ (length = 5 ∨ length = 1 + 4 * (given % 2 + given / 2 % 2 + given / 4)))
  skip (length - 1)

/-- A field with a text in UTF-8, which is good for a given text only, as its checksum tells. -/
def textFor (plain : List UInt8) (length : Nat) : FieldReader String := do
  skip 1
  let sum ← number 4
  require (5 ≤ length)
  let bytes ← take (length - 5)
  require (sum = (checksum plain).toNat)
  match ofUtf8? bytes with
  | some s => return s
  | none => throw .malformed

/-- A field with the parameters of a cipher, among them how the member is packed. -/
def cipher (length : Nat) : FieldReader Unit := do
  require (length = 7)
  let version ← number 2
  let vendor ← number 2
  let strength ← number 1
  let method ← number 2
  require (vendor = 0x4541 ∧ (version = 1 ∨ version = 2) ∧ 1 ≤ strength ∧ strength ≤ 3)
  correct fun m => { m with hasCipher := true, method }

/-- A field with the name in UTF-8. -/
def name (length : Nat) : FieldReader Unit := do
  let s ← textFor (← get).member.nameBytes length
  correct fun m => { m with name := s, nameBytes := utf8Bytes s }

/-- A field with the comment in UTF-8. -/
def comment (length : Nat) : FieldReader Unit := do
  let s ← textFor (utf8Bytes (← get).member.comment) length
  correct fun m => { m with comment := s }

/-- Reads a field. -/
def field : FieldReader Unit := do
  let kind ← number 2
  let length ← number 2
  match kind with
  | 0x0001 => wideNumbers length
  | 0x000A => longTimes length
  | 0x5455 => shortTimes length
  | 0x6375 => comment length
  | 0x7075 => name length
  | 0x9901 => cipher length
  | _ => skip length

/-- Reads all fields; every one takes some of the bytes that are left. -/
def fields : FieldReader Unit := fun s =>
  if s.rest.isEmpty then .ok () s
  else
    match field s with
    | .error fault s => .error fault s
    | .ok _ t => if _h : t.rest.length < s.rest.length then fields t else .error .malformed t
termination_by s => s.rest.length

end FieldReader

namespace ArchiveMember

/-- The member as extra fields correct it; none, if one of them is malformed. -/
def readFields (m : ArchiveMember) (bytes : List UInt8) : Option ArchiveMember :=
  match FieldReader.fields ⟨m, bytes⟩ with
  | .ok _ s => some s.member
  | .error .cutOff s => some s.member
  | .error .malformed _ => none

/-! ## Entries -/

/-- The number that an entry of the directory begins with. -/
def entryMark : Nat := 0x02014B50

/-- The method of members that are packed as the parameters of a cipher say. -/
def cipherMethod : Nat := 99

/-- The member of an entry without its extra fields, given the bytes of its name and its comment. -/
def ofEntry (entry name comment : List UInt8) : ArchiveMember :=
  let flags := numberAt entry 8 2
  let isUtf8 := flags.testBit 11
  { name := ArchiveName.read isUtf8 name
    nameBytes := name
    comment := ArchiveName.read isUtf8 comment
    isLink := numberAt entry 5 1 = 3 && numberAt entry 40 2 &&& 0o120000 = 0o120000
    isEncrypted := flags.testBit 0
    hasCipher := false
    method := numberAt entry 10 2
    checksum := UInt32.ofNat (numberAt entry 16 4)
    size := numberAt entry 24 4
    packedSize := numberAt entry 20 4
    position := numberAt entry 42 4 }

/-- The member of the entry that bytes begin with, and the length of the entry. -/
def ofEntry? (bytes : List UInt8) : Option (ArchiveMember × Nat) := do
  let nameSize := numberAt bytes 28 2
  let fieldsSize := numberAt bytes 30 2
  let commentSize := numberAt bytes 32 2
  let size := 46 + nameSize + fieldsSize + commentSize
  if numberAt bytes 0 4 ≠ entryMark ∨ (bytes.take size).length < size then none
  else
    let name := (bytes.drop 46).take nameSize
    let comment := (bytes.drop (46 + nameSize + fieldsSize)).take commentSize
    let m ← (ofEntry bytes name comment).readFields ((bytes.drop (46 + nameSize)).take fieldsSize)
    if m.method = cipherMethod ∧ ¬ m.hasCipher then none else return (m, size)

/-- Whether the member is a file, rather than a directory or a link. -/
def isFile (m : ArchiveMember) : Bool :=
  let last := m.name.toList.getLast?
  last ≠ some '/' && last ≠ some '\\' && !m.isLink

end ArchiveMember

end ServiceCatalog
