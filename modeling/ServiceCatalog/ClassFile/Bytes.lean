/-!
# Reading and writing bytes

Class files are sequences of big-endian numbers and counted runs of bytes.  A `ByteReader` takes from the
front of the bytes that are left.  Taking fails as a whole: where fewer bytes are left than asked for, none
is taken.  What was taken before a failure is gone, so the bytes left tell where a reader stopped.

* `bigEndian`, `ofBigEndian`: numbers as bytes and back.
* `ByteReader.take`, `ByteReader.number`, `ByteReader.times`: the readers all others are made of.
-/

namespace ServiceCatalog

/-- The faults of a class file. -/
inductive ClassFileError where
  | unexpectedEof
  | invalidMagic (found : Nat)
  | unsupportedConstant (tag : Nat)
  | invalidConstantIndex (index : Nat)
  | invalidUtf8 (index : Nat)
  | unsupportedElementTag (tag : Char)
  deriving DecidableEq, Repr

/-- A number in hexadecimal, filled up with zeros to eight digits. -/
def hexadecimal8 (n : Nat) : String :=
  let digits := Nat.toDigits 16 n
  String.ofList (List.replicate (8 - digits.length) '0' ++ digits)

/-- The message of the error. -/
def ClassFileError.message : ClassFileError → String
  | unexpectedEof => "unexpected end of class file"
  | invalidMagic found => "invalid class file magic header 0x" ++ hexadecimal8 found
  | unsupportedConstant tag => "unsupported constant pool tag " ++ toString tag
  | invalidConstantIndex index => "invalid constant pool index " ++ toString index
  | invalidUtf8 index => "invalid modified UTF-8 in constant pool entry " ++ toString index
  | unsupportedElementTag tag => "unsupported annotation element tag '" ++ String.singleton tag ++ "'"

/-! ## Numbers -/

/-- The low bytes of a number, the most significant one first. -/
def bigEndian : Nat → Nat → List UInt8
  | 0, _ => []
  | width + 1, n => bigEndian width (n / 256) ++ [UInt8.ofNat n]

/-- The number that bytes spell, the most significant one first. -/
def ofBigEndian (bytes : List UInt8) : Nat := bytes.foldl (fun n b => n * 256 + b.toNat) 0

@[simp] theorem length_bigEndian (width n : Nat) : (bigEndian width n).length = width := by
  induction width generalizing n with
  | zero => rfl
  | succ width ih => simp [bigEndian, ih]

theorem ofBigEndian_append (bytes : List UInt8) (b : UInt8) :
    ofBigEndian (bytes ++ [b]) = ofBigEndian bytes * 256 + b.toNat := by
  simp [ofBigEndian]

/-- The lowest byte of what bytes keep of a number is that of the number, and the others are what the bytes
before it keep of the rest. -/
theorem ofBigEndian_bigEndian_succ (width n : Nat) :
    ofBigEndian (bigEndian (width + 1) n) = ofBigEndian (bigEndian width (n / 256)) * 256 + n % 256 := by
  have low : (UInt8.ofNat n).toNat = n % 256 := by simp
  rw [bigEndian, ofBigEndian_append, low]

/-! ## Readers -/

/-- A reader of the bytes that are left. -/
abbrev ByteReader (α : Type) := EStateM ClassFileError (List UInt8) α

namespace ByteReader

/-- Takes a number of bytes, or none and fails. -/
def take (n : Nat) : ByteReader (List UInt8) := fun bytes =>
  let front := bytes.take n
  if front.length = n then .ok front (bytes.drop n) else .error .unexpectedEof bytes

/-- Passes a number of bytes. -/
def skip (n : Nat) : ByteReader Unit := do
  let _ ← take n

/-- Takes a big-endian number. -/
def number (width : Nat) : ByteReader Nat := ofBigEndian <$> take width

/-- Takes a number of eight bytes as two halves, of which the first may be gone when the second fails. -/
def wideNumber : ByteReader Nat := do
  let high ← number 4
  let low ← number 4
  return high * 0x100000000 + low

/-- Repeats a reader. -/
def times {α : Type} : Nat → ByteReader α → ByteReader (List α)
  | 0, _ => return []
  | n + 1, item => do
    let first ← item
    let others ← times n item
    return first :: others

/-- Repeats a reader as often as the number in front says. -/
def counted {α : Type} (item : ByteReader α) : ByteReader (List α) := do
  times (← number 2) item

/-- A reader that may only be called with fewer bytes left than at `start`. -/
def below {α : Type} (start : List UInt8)
    (item : (bytes : List UInt8) → bytes.length < start.length →
      EStateM.Result ClassFileError (List UInt8) α) : ByteReader α := fun bytes =>
  if h : bytes.length < start.length then item bytes h else .error .unexpectedEof bytes

/-- The answer of a reader about bytes, whatever is left of them. -/
def answer {α : Type} (item : ByteReader α) (bytes : List UInt8) : Except ClassFileError α :=
  match item bytes with
  | .ok a _ => .ok a
  | .error e _ => .error e

/-- A reader of a part of the bytes, which was taken before. -/
def within {α : Type} (part : List UInt8) (item : ByteReader α) : ByteReader α := fun bytes =>
  match answer item part with
  | .ok a => .ok a bytes
  | .error e => .error e bytes

/-- The value, or the failure without taking anything. -/
def ofExcept {α : Type} : Except ClassFileError α → ByteReader α
  | .ok a => return a
  | .error e => throw e

/-- The number every class file begins with. -/
def magic : Nat := 0xCAFEBABE

/-- Passes the number every class file begins with. -/
def expectMagic : ByteReader Unit := do
  let found ← number 4
  if found ≠ magic then throw (.invalidMagic found)

end ByteReader

end ServiceCatalog
