/-!
# Reading bits

Deflated data is a stream of bits, each byte giving its eight from the lowest up.  Numbers are written with
their lowest bit first.  A reader keeps its place in the data; the bits that are left are the measure by
which every loop over them ends.

* `BitReader.bit`, `BitReader.number`: single bits, and numbers of a given width.
* `BitReader.bytes`: whole bytes, once a reader is aligned to them.
-/

namespace ServiceCatalog

/-- Why stored data cannot be unpacked. -/
inductive UnpackFault where
  /-- The data ends too early. -/
  | truncated
  /-- The data is not deflated data. -/
  | corrupt
  /-- The data unpacks to something else than it should. -/
  | wrongChecksum
  deriving DecidableEq, Repr

/-- A place in data, counted in bits. -/
structure BitCursor where
  data : ByteArray
  position : Nat

/-- The number of bits that are left. -/
def BitCursor.remaining (c : BitCursor) : Nat := 8 * c.data.size - c.position

/-- A reader of bits. -/
abbrev BitReader (α : Type) := EStateM UnpackFault BitCursor α

namespace BitReader

/-- The next bit. -/
def bit : BitReader Bool := fun c =>
  if h : c.position / 8 < c.data.size then
    .ok (c.data[c.position / 8].toNat.testBit (c.position % 8)) { c with position := c.position + 1 }
  else .error .truncated c

/-- A number of a given width, its lowest bit first. -/
def number : Nat → BitReader Nat
  | 0 => return 0
  | width + 1 => do
    let low ← bit
    let high ← number width
    return high * 2 + low.toNat

/-- Passes the bits that are left of a byte. -/
def align : BitReader Unit := modify fun c => { c with position := (c.position + 7) / 8 * 8 }

/-- A number of whole bytes. -/
def bytes : Nat → BitReader (List UInt8)
  | 0 => return []
  | n + 1 => do
    let first ← number 8
    let others ← bytes n
    return UInt8.ofNat first :: others

/-- The outcome of repeating a reader until it says that it is done; every turn must take a bit. -/
def loop {α : Type} (turn : α → BitReader (α × Bool)) (a : α) : BitReader α := fun c =>
  match turn a c with
  | .error e c => .error e c
  | .ok (a, true) c => .ok a c
  | .ok (a, false) rest => if _h : rest.remaining < c.remaining then loop turn a rest else .error .corrupt rest
termination_by c => c.remaining

end BitReader

end ServiceCatalog
