/-!
# The text of a class file

Texts in class files are written unit by unit of UTF-16, each unit in one to three bytes; the unit zero
takes two, so that no zero byte occurs.  A character beyond the basic plane is therefore six bytes, its two
surrogates.  Some writers use standard UTF-8 instead, so bytes that are standard UTF-8 are read as such:
the two readings differ only where one of them fails.

* `utf8Bytes`, `ofUtf8?`: standard UTF-8.
* `units?`, `ofUnits?`: bytes to units, and units to characters.
* `decodeText?`: the text of bytes of either kind.
-/

namespace ServiceCatalog

/-! ## Standard UTF-8 -/

/-- The standard UTF-8 bytes of a text. -/
def utf8Bytes (s : String) : List UInt8 := s.toUTF8.toList

/-- The text with given standard UTF-8 bytes. -/
def ofUtf8? (bytes : List UInt8) : Option String := String.fromUTF8? ⟨bytes.toArray⟩

/-! ## Units of UTF-16 -/

namespace ModifiedUtf8

/-- The payload of a byte that continues a unit. -/
def continuation? (b : UInt8) : Option Nat :=
  if b.toNat / 64 = 2 then some (b.toNat % 64) else none

/-- The units that bytes spell.  The first byte of a unit tells how many follow it. -/
def units? : List UInt8 → Option (List Nat)
  | [] => some []
  | b :: bs =>
    if b.toNat < 0x80 then (units? bs).map (b.toNat :: ·)
    else if b.toNat / 32 = 6 then
      match bs with
      | b₂ :: bs => do
        let x ← continuation? b₂
        return (b.toNat % 32 * 64 + x) :: (← units? bs)
      | [] => none
    else if b.toNat / 16 = 14 then
      match bs with
      | b₂ :: b₃ :: bs => do
        let x ← continuation? b₂
        let y ← continuation? b₃
        return (b.toNat % 16 * 4096 + x * 64 + y) :: (← units? bs)
      | _ => none
    else none

/-- Whether a unit is the first half of a pair. -/
def isHighSurrogate (u : Nat) : Bool := 0xD800 ≤ u && u < 0xDC00

/-- Whether a unit is the second half of a pair. -/
def isLowSurrogate (u : Nat) : Bool := 0xDC00 ≤ u && u < 0xE000

/-- The characters that units spell; none, if a half of a pair stands alone. -/
def ofUnits? : List Nat → Option (List Char)
  | [] => some []
  | u :: us =>
    if isHighSurrogate u then
      match us with
      | v :: us =>
        if isLowSurrogate v then
          (ofUnits? us).map (Char.ofNat (0x10000 + (u - 0xD800) * 1024 + (v - 0xDC00)) :: ·)
        else none
      | [] => none
    else if isLowSurrogate u then none
    else (ofUnits? us).map (Char.ofNat u :: ·)

/-- The text that units spell. -/
def textOfUnits? (bytes : List UInt8) : Option String := do
  return String.ofList (← ofUnits? (← units? bytes))

end ModifiedUtf8

/-- The text of bytes in a class file. -/
def decodeText? (bytes : List UInt8) : Option String :=
  (ofUtf8? bytes).orElse fun _ => ModifiedUtf8.textOfUnits? bytes

end ServiceCatalog
