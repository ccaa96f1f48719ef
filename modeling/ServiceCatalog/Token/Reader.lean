import ServiceCatalog.Token.Lexeme

/-!
# Reading a text lexeme by lexeme

The reader of a text stands at a place in it.  A call passes the separators and takes one lexeme; at the end of the
text it answers the end of the file, however often it is called.  A byte order mark and an interpreter line are
passed where no byte has been read.
-/

namespace ServiceCatalog

/-- Where a reader stands: the number of bytes that it read, the place in the file, and the characters left. -/
structure TextReader where
  offset : Nat
  place : Position
  rest : List Char
  deriving DecidableEq, Repr

namespace TextReader

/-- The reader of a text at its beginning. -/
def start (source : String) : TextReader := ⟨0, .start, source.toList⟩

/-- The reader behind a number of characters. -/
def pass (r : TextReader) (n : Nat) : TextReader :=
  ⟨r.offset + Position.bytes (r.rest.take n), r.place.after (r.rest.take n), r.rest.drop n⟩

/-- The reader behind what only the beginning of a file can have. -/
def passHeader (r : TextReader) : TextReader := if r.offset = 0 then r.pass (headerLength r.rest) else r

/-- The lexeme behind the separators, and the reader behind it. -/
def take (r : TextReader) : Lexeme × TextReader :=
  let newlineBefore := (r.rest.take (gap r.rest).length).contains '\n'
  let behind := r.pass (gap r.rest).length
  match behind.rest with
  | [] => (.atEnd behind.place newlineBefore, behind)
  | c :: cs =>
    if (gap r.rest).unclosed then
      (.invalid ⟨.unterminatedComment, behind.place.spanOf (c :: cs)⟩ false, behind.pass (cs.length + 1))
    else
      let found := recognize c cs
      (.ofRecognized behind.place newlineBefore (c :: cs.take found.length) found.kind, behind.pass (found.length + 1))

/-- The next lexeme, and the reader behind it. -/
def next (r : TextReader) : Lexeme × TextReader := r.passHeader.take

/-- The answers to a number of calls. -/
def calls : Nat → TextReader → List Lexeme
  | 0, _ => []
  | n + 1, r => r.next.1 :: calls n r.next.2

end TextReader

end ServiceCatalog
