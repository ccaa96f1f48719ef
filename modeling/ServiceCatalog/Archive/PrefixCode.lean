import ServiceCatalog.Archive.Bits

/-!
# Prefix codes

A prefix code gives every symbol a sequence of bits, none of which begins another one.  In its canonical
form it is determined by the lengths alone: codes of one length are consecutive numbers, in the order of
their symbols, and come before all longer ones.  So a code is kept as the symbols of each length, and a code
word is read bit by bit, as long as its number lies behind those of its length.
-/

namespace ServiceCatalog

/-- A canonical prefix code: the symbols with code words of one bit, of two bits, and so on, in order. -/
structure PrefixCode where
  levels : List (Array Nat)
  deriving Repr

namespace PrefixCode

/-- The length of the longest code word that a code can have. -/
def maxLength : Nat := 15

/-- The symbols whose code words have a given length. -/
def level (lengths : List Nat) (length : Nat) : Array Nat :=
  (lengths.zipIdx.filterMap fun e => if e.1 = length then some e.2 else none).toArray

/-- The number of sequences that begin with a code word, if all are as long as the longest code word can
be, where the first level is that of code words one bit longer than some that begin `first` sequences. -/
def coveredFrom : Nat → List (Array Nat) → Nat
  | first, [] => first
  | first, symbols :: longer => coveredFrom (first * 2 + symbols.size) longer

/-- The levels of code words with given lengths, symbol by symbol, where a symbol of length zero has no code
word. -/
def levelsOf (lengths : List Nat) : List (Array Nat) :=
  (List.range maxLength).map fun i => level lengths (i + 1)

/-- Whether every sequence of bits begins with a code word. -/
def exhausts (levels : List (Array Nat)) : Bool := coveredFrom 0 levels = 1 <<< maxLength

/-- The code with given lengths of code words, which must exhaust all sequences of bits. -/
def ofLengths? (lengths : List Nat) : Option PrefixCode :=
  let levels := levelsOf lengths
  if exhausts levels then some ⟨levels⟩ else none

/-- The code with given lengths of code words, which must exhaust all sequences of bits, unless there is at
most one code word and it has one bit. -/
def ofFewLengths? (lengths : List Nat) : Option PrefixCode :=
  match levelsOf lengths with
  | [] => none
  | symbols :: longer =>
    if exhausts (symbols :: longer) then some ⟨symbols :: longer⟩
    else if symbols.size ≤ 1 ∧ longer.all (·.isEmpty) then some ⟨[symbols]⟩
    else none

/-- Reads a code word of which `value` was read, where `first` is the number of the first code word that is
longer. -/
def symbolFrom : List (Array Nat) → Nat → Nat → BitReader Nat
  | [], _, _ => throw .corrupt
  | symbols :: longer, value, first => do
    let low ← BitReader.bit
    let value := value * 2 + low.toNat
    match symbols[value - first]? with
    | some symbol => return symbol
    | none => symbolFrom longer value ((first + symbols.size) * 2)

/-- Reads a code word and gives its symbol. -/
def symbol (c : PrefixCode) : BitReader Nat := symbolFrom c.levels 0 0

end PrefixCode

end ServiceCatalog
