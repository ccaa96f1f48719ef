/-!
# Checksums

The checksum of a member of an archive: the remainder of its bytes, read as a polynomial over the field of
two elements with the lowest bit of each byte first, by a polynomial of degree 32.
-/

namespace ServiceCatalog

namespace Checksum

/-- The divisor, its bits in reverse and without the highest one. -/
def divisor : UInt32 := 0xEDB88320

/-- The remainder after one more bit. -/
def shift (c : UInt32) : UInt32 := if c &&& 1 = 1 then (c >>> 1) ^^^ divisor else c >>> 1

/-- The remainder after one more byte. -/
def addByte (c : UInt32) (b : UInt8) : UInt32 := Nat.repeat shift 8 (c ^^^ b.toUInt32)

end Checksum

/-- The checksum of bytes. -/
def checksum (bytes : List UInt8) : UInt32 :=
  bytes.foldl Checksum.addByte 0xFFFFFFFF ^^^ 0xFFFFFFFF

end ServiceCatalog
