/-!
# Lenient reading of UTF-8

Where bytes are not UTF-8 and a text is wanted all the same, every run of bytes that begins a character and
is not continued as one counts as a single replacement character, and so does every byte that begins none.
Bytes are read one by one; a `PartialCharacter` is what is known in the middle of a character.
-/

namespace ServiceCatalog.Text

/-- The character that stands for bytes that are none. -/
def replacement : Char := '\uFFFD'

/-- A character of which not all bytes are known. -/
structure PartialCharacter where
  /-- The number of bytes that are missing. -/
  missing : Nat
  /-- The least byte that may come next. -/
  low : Nat
  /-- The greatest byte that may come next. -/
  high : Nat
  /-- The bits that are known. -/
  bits : Nat
  deriving DecidableEq, Repr

/-- The character that a byte is the first of several bytes of.  The bounds of the second byte leave out
what would have a shorter form, halves of pairs, and numbers that are too large. -/
def PartialCharacter.ofFirst? (b : Nat) : Option PartialCharacter :=
  if b < 0xC2 then none
  else if b < 0xE0 then some ⟨1, 0x80, 0xBF, b - 0xC0⟩
  else if b < 0xF0 then
    some ⟨2, if b = 0xE0 then 0xA0 else 0x80, if b = 0xED then 0x9F else 0xBF, b - 0xE0⟩
  else if b < 0xF5 then
    some ⟨3, if b = 0xF0 then 0x90 else 0x80, if b = 0xF4 then 0x8F else 0xBF, b - 0xF0⟩
  else none

/-- The characters that a byte completes where none is begun, and the one it begins. -/
def lenientFirst (b : Nat) : List Char × Option PartialCharacter :=
  if b < 0x80 then ([Char.ofNat b], none)
  else
    match PartialCharacter.ofFirst? b with
    | some p => ([], some p)
    | none => ([replacement], none)

/-- The characters that a byte completes, and the one that is begun behind it. -/
def lenientStep : Option PartialCharacter → Nat → List Char × Option PartialCharacter
  | none, b => lenientFirst b
  | some p, b =>
    if p.low ≤ b ∧ b ≤ p.high then
      let bits := p.bits * 64 + (b - 0x80)
      if p.missing = 1 then ([Char.ofNat bits], none) else ([], some ⟨p.missing - 1, 0x80, 0xBF, bits⟩)
    else
      let (completed, begun) := lenientFirst b
      (replacement :: completed, begun)

/-- The characters of bytes, where one may be begun already. -/
def lenientFrom (begun : Option PartialCharacter) : List UInt8 → List Char
  | [] => if begun.isSome then [replacement] else []
  | b :: bs =>
    let (completed, begun) := lenientStep begun b.toNat
    completed ++ lenientFrom begun bs

/-- The text of bytes, whatever they are. -/
def lenient (bytes : List UInt8) : String := String.ofList (lenientFrom none bytes)

/-- Bytes below 128 are characters of their own. -/
theorem lenientFrom_ascii (bytes : List UInt8) (h : ∀ b ∈ bytes, b.toNat < 0x80) :
    lenientFrom none bytes = bytes.map fun b => Char.ofNat b.toNat := by
  induction bytes with
  | nil => rfl
  | cons b bs ih =>
    have hb : b.toNat < 0x80 := h b List.mem_cons_self
    have hbs := ih fun c hc => h c (List.mem_cons_of_mem b hc)
    simp [lenientFrom, lenientStep, lenientFirst, hb, hbs]

end ServiceCatalog.Text
