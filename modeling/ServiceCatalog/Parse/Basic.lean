import ServiceCatalog.Parse.Cursor

/-!
# Parsers of a run of tokens

A `TokenParser` reads a construct at a cursor.  It answers what it read and where it stopped, and it
answers where it stopped also when it fails, because the caller goes on from there.

The only loop is `manyWhile`, which repeats a parser as long as a test of the cursor holds.  A parser that
consumes nothing is not repeated, so the loop ends whatever it repeats; nor can recursion run on, since a
construct may call itself only `below` the cursor it began at, that is with fewer tokens to come.
-/

namespace ServiceCatalog

/-- A parser that reads a construct at a cursor. -/
abbrev TokenParser (α : Type) := EStateM ParseError Cursor α

namespace TokenParser

/-- The cursor. -/
def here : TokenParser Cursor := fun c => .ok c c

/-- The place of the next token. -/
def nextSpan : TokenParser Span := fun c => .ok c.peek.span c

/-- Whether a test of the cursor holds. -/
def test (p : Cursor → Bool) : TokenParser Bool := fun c => .ok (p c) c

/-- Passes the next token. -/
def next : TokenParser Token := fun c => .ok c.peek c.advance

/-- Goes back to an earlier cursor. -/
def goBack (c : Cursor) : TokenParser Unit := fun _ => .ok () c

/-- Fails with an error about the next token. -/
def failAtNext {α : Type} (e : Token → ParseError) : TokenParser α := fun c => .error (e c.peek) c

/-- Passes the next token if it has a given kind. -/
def eat? (k : TokenKind) : TokenParser (Option Token) := fun c =>
  if c.isAt k then .ok (some c.peek) c.advance else .ok none c

/-- Passes the next token if it has a given kind, and says whether it did. -/
def eat (k : TokenKind) : TokenParser Bool := fun c =>
  if c.isAt k then .ok true c.advance else .ok false c

/-- Passes the next token if it is a given word. -/
def eatWord? (word : String) : TokenParser (Option Token) := fun c =>
  if c.isAtWord word then .ok (some c.peek) c.advance else .ok none c

/-- Passes the next token if it is a given word, and says whether it did. -/
def eatWord (word : String) : TokenParser Bool := fun c =>
  if c.isAtWord word then .ok true c.advance else .ok false c

/-- The error for a token that is not the expected one; the end of the file has an error of its own. -/
def unexpected (error : Token → ParseError) (found : Token) : ParseError :=
  if found.kind = .eof then .unexpectedEof found.span else error found

/-- Passes a token of a given kind, or fails. -/
def expect (k : TokenKind) : TokenParser Token := fun c =>
  if c.isAt k then .ok c.peek c.advance
  else .error (unexpected (fun t => .expectedToken t.span k.description t.describe) c.peek) c

/-- Fails with the error that no opening parenthesis or other mark was found. -/
def failExpecting {α : Type} (description : String) : TokenParser α :=
  failAtNext fun t => .expectedToken t.span description t.describe

/-- The result of a parser at another cursor, or at this one when it fails there. -/
def attempt {α : Type} (p : TokenParser α) : TokenParser (Option α) := fun c =>
  match p c with
  | .ok a c' => .ok (some a) c'
  | .error _ _ => .ok none c

/-- A parser that may only be called with fewer tokens to come than at `start`. -/
def below {α : Type} (start : Cursor) (p : (c : Cursor) → c.size < start.size → EStateM.Result ParseError Cursor α) :
    TokenParser α := fun c =>
  if h : c.size < start.size then p c h else .error (.unexpectedEof c.peek.span) c

/-- Repeats a parser while a test of the cursor holds. -/
def manyWhile {α : Type} (p : Cursor → Bool) (item : TokenParser α) (c : Cursor) :
    EStateM.Result ParseError Cursor (List α) :=
  if p c then
    match item c with
    | .error e c' => .error e c'
    | .ok a c' =>
      if c'.size < c.size then
        match manyWhile p item c' with
        | .error e c'' => .error e c''
        | .ok as c'' => .ok (a :: as) c''
      else .ok [a] c'
  else .ok [] c
termination_by c.size

/-- The span from a place up to the token passed last. -/
def spanFrom (start : Span) : TokenParser Span := fun c => .ok (c.spanFrom start) c

/-- The text of the tokens passed since a cursor. -/
def textSince (start : Cursor) : TokenParser String := fun c => .ok (Token.text (start.between c)) c

end TokenParser

end ServiceCatalog
