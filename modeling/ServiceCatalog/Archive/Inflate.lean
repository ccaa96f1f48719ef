import ServiceCatalog.Archive.PrefixCode

/-!
# Inflating

Deflated data is a list of blocks.  A block holds bytes as they are, or symbols of two prefix codes, a fixed
pair or one that the block itself describes.  A symbol is a byte, the end of the block, or a number of bytes
to be copied from what was inflated before, at a distance given by a symbol of the second code.
-/

namespace ServiceCatalog

namespace Inflate

/-! ## Codes of a block -/

/-- The code of bytes and lengths, and the code of distances. -/
structure BlockCodes where
  main : PrefixCode
  distance : PrefixCode

/-- The code, or the fault of data without one. -/
def codeOf (c : Option PrefixCode) : BitReader PrefixCode :=
  match c with
  | some c => return c
  | none => throw .corrupt

/-- The codes of a block that does not describe its own. -/
def fixedCodes : BitReader BlockCodes := do
  let main ← codeOf (PrefixCode.ofLengths? (List.replicate 144 8 ++ List.replicate 112 9 ++
    List.replicate 24 7 ++ List.replicate 8 8))
  let distance ← codeOf (PrefixCode.ofLengths? (List.replicate 32 5))
  return ⟨main, distance⟩

/-- The order in which a block gives the lengths of the code words for lengths. -/
def lengthOrder : List Nat := [16, 17, 18, 0, 8, 7, 9, 6, 10, 5, 11, 4, 12, 3, 13, 2, 14, 1, 15]

/-- The lengths of code words with those that one symbol adds: itself, or a run of the length before or of
zeros. -/
def addLengths (lengths : Array Nat) (symbol : Nat) : BitReader (Array Nat) := do
  if symbol < 16 then return lengths.push symbol
  else if symbol = 16 then
    match lengths.back? with
    | some last => return lengths ++ Array.replicate ((← BitReader.number 2) + 3) last
    | none => throw .corrupt
  else if symbol = 17 then return lengths ++ Array.replicate ((← BitReader.number 3) + 3) 0
  else return lengths ++ Array.replicate ((← BitReader.number 7) + 11) 0

/-- The greatest number of bytes and lengths that a block can describe code words for. -/
def maxMainCount : Nat := 286

/-- The greatest number of distances that a block can describe code words for. -/
def maxDistanceCount : Nat := 30

/-- The codes that a block describes. -/
def describedCodes : BitReader BlockCodes := do
  let mainCount := (← BitReader.number 5) + 257
  let distanceCount := (← BitReader.number 5) + 1
  let lengthCount := (← BitReader.number 4) + 4
  if maxMainCount < mainCount ∨ maxDistanceCount < distanceCount then throw .corrupt
  let widths ← (List.range lengthCount).mapM fun _ => BitReader.number 3
  let lengthCode ← codeOf (PrefixCode.ofLengths? ((List.range 19).map fun symbol =>
    widths.getD (lengthOrder.idxOf symbol) 0))
  let total := mainCount + distanceCount
  let lengths ← BitReader.loop (fun lengths => do
    let lengths ← addLengths lengths (← lengthCode.symbol)
    return (lengths, decide (total ≤ lengths.size))) #[]
  if lengths.size ≠ total then throw .corrupt
  let main ← codeOf (PrefixCode.ofFewLengths? (lengths.toList.take mainCount))
  let distance ← codeOf (PrefixCode.ofFewLengths? (lengths.toList.drop mainCount))
  return ⟨main, distance⟩

/-! ## Copies -/

/-- The shortest length and the number of further bits of every symbol for a length. -/
def lengthBases : List (Nat × Nat) :=
  [(3, 0), (4, 0), (5, 0), (6, 0), (7, 0), (8, 0), (9, 0), (10, 0), (11, 1), (13, 1), (15, 1), (17, 1),
    (19, 2), (23, 2), (27, 2), (31, 2), (35, 3), (43, 3), (51, 3), (59, 3), (67, 4), (83, 4), (99, 4),
    (115, 4), (131, 5), (163, 5), (195, 5), (227, 5), (258, 0)]

/-- The shortest distance and the number of further bits of every symbol for a distance. -/
def distanceBases : List (Nat × Nat) :=
  [(1, 0), (2, 0), (3, 0), (4, 0), (5, 1), (7, 1), (9, 2), (13, 2), (17, 3), (25, 3), (33, 4), (49, 4),
    (65, 5), (97, 5), (129, 6), (193, 6), (257, 7), (385, 7), (513, 8), (769, 8), (1025, 9), (1537, 9),
    (2049, 10), (3073, 10), (4097, 11), (6145, 11), (8193, 12), (12289, 12), (16385, 13), (24577, 13)]

/-- The number that a symbol and the further bits behind it stand for. -/
def extended (bases : List (Nat × Nat)) (symbol : Nat) : BitReader Nat :=
  match bases[symbol]? with
  | some (base, width) => do return base + (← BitReader.number width)
  | none => throw .corrupt

/-- The byte a distance before the end.  What is before the beginning counts as zeros. -/
def byteBefore (distance : Nat) (out : ByteArray) : UInt8 :=
  if _h : 0 < distance ∧ distance ≤ out.size then
    have : out.size - distance < out.size := by omega
    out[out.size - distance]
  else 0

/-- The bytes with some of them repeated at the end: each is the one a distance before it, which may be one
of those that were repeated already. -/
def copy (distance : Nat) : Nat → ByteArray → ByteArray
  | 0, out => out
  | n + 1, out => copy distance n (out.push (byteBefore distance out))

/-! ## Blocks -/

/-- Reads a symbol of a block and adds what it stands for.  The answer says whether the block ends. -/
def symbol (codes : BlockCodes) (out : ByteArray) : BitReader (ByteArray × Bool) := do
  let s ← codes.main.symbol
  if s < 256 then return (out.push (UInt8.ofNat s), false)
  else if s = 256 then return (out, true)
  else
    let length ← extended lengthBases (s - 257)
    let distance ← extended distanceBases (← codes.distance.symbol)
    return (copy distance length out, false)

/-- Reads a block of bytes as they are, whose number is given twice, the second time by its complement. -/
def storedBlock (out : ByteArray) : BitReader ByteArray := do
  BitReader.align
  let length ← BitReader.number 16
  let complement ← BitReader.number 16
  if length + complement ≠ 0xFFFF then throw .corrupt
  return (← BitReader.bytes length).foldl ByteArray.push out

/-- Reads a block.  The answer says whether it is the last one. -/
def block (out : ByteArray) : BitReader (ByteArray × Bool) := do
  let isLast ← BitReader.bit
  let out ← match ← BitReader.number 2 with
    | 0 => storedBlock out
    | 1 => BitReader.loop (symbol (← fixedCodes)) out
    | 2 => BitReader.loop (symbol (← describedCodes)) out
    | _ => throw .corrupt
  return (out, isLast)

end Inflate

/-- The data that deflated data stands for.  What follows the last block is ignored. -/
def inflate (bytes : List UInt8) : Except UnpackFault (List UInt8) :=
  match BitReader.loop Inflate.block .empty ⟨⟨bytes.toArray⟩, 0⟩ with
  | .ok out _ => .ok out.toList
  | .error e _ => .error e

end ServiceCatalog
