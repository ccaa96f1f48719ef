import ServiceCatalog.Archive.Inflate
import ServiceCatalog.Archive.Member
import ServiceCatalog.Table

/-!
# Archives

An archive holds its members one after the other, each behind a header of its own, then a directory of
them, then a summary that says where the directory is.  Only the directory is trusted: members are found
through it, in its order.  The archive may stand behind other data, so the places it gives are counted from
where its own data begins, which the beginning of the directory tells.

A summary whose numbers have no place in it is preceded by a wide summary and by a locator that says where
the wide summary is.

* `Archive.ofBytes?`: the directory of an archive.
* `Archive.packed?`: the data of a member as it is stored.
* `ArchiveMember.unpack`: the data that a member stands for.
-/

namespace ServiceCatalog

/-- An archive: its bytes and its directory. -/
structure Archive where
  bytes : List UInt8
  members : List ArchiveMember

namespace Archive

/-! ## The place of the directory -/

/-- The number that the header of a member begins with. -/
def headerMark : Nat := 0x04034B50

/-- The number that the summary begins with. -/
def summaryMark : Nat := 0x06054B50

/-- The number that the wide summary begins with. -/
def wideSummaryMark : Nat := 0x06064B50

/-- The number that the locator of the wide summary begins with. -/
def locatorMark : Nat := 0x07064B50

/-- The number of bytes of a locator. -/
def locatorSize : Nat := 20

/-- Where a directory is. -/
structure DirectoryPlace where
  start : Nat
  /-- How many bytes of other data there are in front of the archive. -/
  moved : Nat
  count : Nat
  deriving DecidableEq, Repr

/-- All ends of a list with their positions, the last one first. -/
def endsFrom (position : Nat) : List UInt8 → List (Nat × List UInt8) → List (Nat × List UInt8)
  | [], found => found
  | b :: bs, found => endsFrom (position + 1) bs ((position, b :: bs) :: found)

/-- The places of a mark in bytes, the last one first, and what follows there. -/
def places (mark : Nat) (bytes : List UInt8) : List (Nat × List UInt8) :=
  (endsFrom 0 bytes []).filter fun e => numberAt e.2 0 4 = mark

/-- The places of a mark between two positions, counted from the first one, in order. -/
def placesBetween (mark : Nat) (bytes : List UInt8) (first last : Nat) : List (Nat × List UInt8) :=
  (places mark ((bytes.take last).drop first)).reverse

/-- The place of the directory that a summary tells. -/
def directoryOf? (bytes : List UInt8) (position : Nat) (summary : List UInt8) : Option DirectoryPlace := do
  let count := numberAt summary 8 2
  let start := numberAt summary 16 4
  if numberAt summary 4 2 ≠ numberAt summary 6 2 then none
  else if numberAt summary 10 2 = 0 then return ⟨start + (position - start), position - start, count⟩
  else
    let (moved, _) ← (placesBetween ArchiveMember.entryMark bytes start position).head?
    return ⟨start + moved, moved, count⟩

/-- Whether a wide summary, whose locator is a number of bytes behind it, is one that the locator means: it
fills the space between, and has enough space before it for the directory that it tells. -/
def isMeant (position distance disk : Nat) (summary : List UInt8) : Bool :=
  44 ≤ numberAt summary 4 8 && numberAt summary 4 8 + 12 = distance && numberAt summary 20 4 = disk &&
    46 * numberAt summary 32 8 + numberAt summary 48 8 ≤ position

/-- The place of the directory that a wide summary tells, if the summary is sound. -/
def wideDirectoryOf? (moved : Nat) (summary : List UInt8) : Option DirectoryPlace :=
  let count := numberAt summary 32 8
  if count < numberAt summary 24 8 ∨ numberAt summary 12 2 < numberAt summary 14 2 ∨
    numberAt summary 16 4 ≠ numberAt summary 20 4 then none
  else some ⟨numberAt summary 48 8 + moved, moved, count⟩

/-- The place of the directory that a locator leads to. -/
def locatedDirectory? (bytes : List UInt8) (position : Nat) (locator : List UInt8) :
    Option DirectoryPlace := do
  let start := numberAt locator 8 8
  if 1 < numberAt locator 16 4 then none
  else
    let (moved, summary) ← (placesBetween wideSummaryMark bytes start position).find? fun e =>
      isMeant (start + e.1) (position - (start + e.1)) (numberAt locator 4 4) e.2
    wideDirectoryOf? moved summary

/-- The locator in front of a summary, if the summary needs one and there is one. -/
def locator? (bytes : List UInt8) (position : Nat) (summary : List UInt8) : Option (List UInt8) :=
  let locator := bytes.drop (position - locatorSize)
  if (numberAt summary 10 2 = 0xFFFF ∨ numberAt summary 16 4 = 0xFFFFFFFF) ∧ locatorSize ≤ position ∧
    numberAt locator 0 4 = locatorMark then some locator else none

/-- The place of the directory that a summary leads to.  The comment at its end must be complete. -/
def directory? (bytes : List UInt8) (position : Nat) (summary : List UInt8) : Option DirectoryPlace :=
  let size := 22 + numberAt summary 20 2
  if (summary.take size).length < size then none
  else
    match locator? bytes position summary with
    | some locator => locatedDirectory? bytes (position - locatorSize) locator
    | none => directoryOf? bytes position summary

/-! ## The directory -/

/-- The first number that is too large for a place. -/
def placeBound : Nat := 1 <<< 64

/-- A number of members, whose entries are one behind the other.  Their headers are not looked at before the
members are read. -/
def members? (moved : Nat) : Nat → List UInt8 → Option (List ArchiveMember)
  | 0, _ => some []
  | n + 1, entries => do
    let (entry, size) ← ArchiveMember.ofEntry? entries
    let m := { entry with position := entry.position + moved }
    if m.position < placeBound then return m :: (← members? moved n (entries.drop size)) else none

/-- The members by their names: of several with one name the last one counts, at the place of the first. -/
def byName (members : List ArchiveMember) : List ArchiveMember :=
  (members.foldl (fun t m => t.insert m.name m) (Table.empty : Table ArchiveMember)).values

/-- The archive that bytes are: the last summary that leads to a directory describes it. -/
def ofBytes? (bytes : List UInt8) : Option Archive := do
  let ms ← (places summaryMark bytes).findSome? fun e => do
    let place ← directory? bytes e.1 e.2
    members? place.moved place.count (bytes.drop place.start)
  return ⟨bytes, byName ms⟩

/-! ## Members -/

/-- Where the data of a member is, if its header is at a given place. -/
def dataPosition? (bytes : List UInt8) (position : Nat) : Option Nat :=
  let header := bytes.drop position
  if (header.take 30).length < 30 ∨ numberAt header 0 4 ≠ headerMark then none
  else some (position + 30 + numberAt header 26 2 + numberAt header 28 2)

/-- The data of a member as it is stored, if the data can be unpacked: there must be a header, and the data
must not be encrypted, and be stored or deflated. -/
def packed? (a : Archive) (m : ArchiveMember) : Option (List UInt8) := do
  if m.isEncrypted ∨ m.hasCipher ∨ m.method ≠ 0 ∧ m.method ≠ 8 then none
  else return (a.bytes.drop (← dataPosition? a.bytes m.position)).take m.packedSize

end Archive

namespace ArchiveMember

/-- The data that stored data of a member stands for; its checksum must be the one in the directory. -/
def unpack (m : ArchiveMember) (packed : List UInt8) : Except UnpackFault (List UInt8) := do
  let data ← if m.method = 8 then inflate packed else pure packed
  if ServiceCatalog.checksum data = m.checksum then return data else throw .wrongChecksum

end ArchiveMember

end ServiceCatalog
