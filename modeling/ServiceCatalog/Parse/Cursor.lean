import ServiceCatalog.Token.Lexeme
import ServiceCatalog.Parse.Error

/-!
# A place between two tokens

A `Cursor` stands between the tokens of a file.  It remembers the token it passed last, since spans end
there and since the next member of a class is recognized by what stands before it.  The end of the file is
no element of `rest` but a field of its own: it is what a look past the last token shows, and moving on
never passes it.

Going back is keeping an earlier cursor; the tokens between two cursors are what the first one has to
come and the second has not (`Cursor.between`).
-/

namespace ServiceCatalog

/-- A place between two tokens. -/
structure Cursor where
  previous : Option Token
  rest : List Token
  eof : Token
  deriving DecidableEq, Repr, Inhabited

namespace Cursor

/-- The token at the end of a file without lexemes. -/
def emptyEof : Token := ⟨.eof, "", .point 1 1, false⟩

/-- The cursor before the first token of a file, whose last lexeme is its end.  Pieces that are no
tokens are left out. -/
def ofLexemes (ls : List Lexeme) : Cursor :=
  let tokens := ls.filterMap Lexeme.token?
  ⟨none, tokens.dropLast, tokens.getLastD emptyEof⟩

/-- The number of tokens to come, the end of the file not counted. -/
def size (c : Cursor) : Nat := c.rest.length

/-- The token `n` places ahead; past the last token, the end of the file. -/
def peekNth (c : Cursor) (n : Nat) : Token := c.rest.getD n c.eof

/-- The next token. -/
def peek (c : Cursor) : Token := c.peekNth 0

/-- The kind of the next token. -/
def kind (c : Cursor) : TokenKind := c.peek.kind

/-- The kind of the token after the next one. -/
def secondKind (c : Cursor) : TokenKind := (c.peekNth 1).kind

/-- Whether the next token has a given kind. -/
def isAt (c : Cursor) (k : TokenKind) : Bool := c.kind == k

/-- Whether the file ends here. -/
def isAtEnd (c : Cursor) : Bool := c.isAt .eof

/-- Whether the next token is an identifier with a given text, such as a soft keyword. -/
def isAtWord (c : Cursor) (word : String) : Bool := c.isAt .identifier && c.peek.lexeme == word

/-- The cursor `n` tokens further on, or at the end of the file. -/
def skip (c : Cursor) (n : Nat) : Cursor :=
  ⟨(c.rest.take n).getLast?.or c.previous, c.rest.drop n, c.eof⟩

/-- The cursor behind the next token. -/
def advance (c : Cursor) : Cursor :=
  match c.rest with
  | [] => c
  | t :: ts => ⟨some t, ts, c.eof⟩

/-- The tokens between two cursors of a file. -/
def between (start now : Cursor) : List Token := start.rest.take (start.size - now.size)

/-- The span from a place up to the token passed last. -/
def spanFrom (c : Cursor) (start : Span) : Span :=
  match c.previous with
  | some t => start.merge t.span
  | none => start

@[simp] theorem peek_cons (p : Option Token) (t : Token) (ts : List Token) (e : Token) :
    (⟨p, t :: ts, e⟩ : Cursor).peek = t := rfl

@[simp] theorem peek_nil (p : Option Token) (e : Token) : (⟨p, [], e⟩ : Cursor).peek = e := rfl

@[simp] theorem advance_cons (p : Option Token) (t : Token) (ts : List Token) (e : Token) :
    (⟨p, t :: ts, e⟩ : Cursor).advance = ⟨some t, ts, e⟩ := rfl

@[simp] theorem advance_nil (p : Option Token) (e : Token) :
    (⟨p, [], e⟩ : Cursor).advance = ⟨p, [], e⟩ := rfl

@[simp] theorem eof_advance (c : Cursor) : c.advance.eof = c.eof := by
  unfold advance; split <;> rfl

@[simp] theorem size_advance (c : Cursor) : c.advance.size = c.size - 1 := by
  unfold advance size; split <;> simp_all

@[simp] theorem size_skip (c : Cursor) (n : Nat) : (c.skip n).size = c.size - n := by
  simp [skip, size]

end Cursor

/-! ## The text of a run of tokens -/

namespace Token

/-- Whether a kind of token is made of letters, so that two of them need a space between. -/
def isWordy : TokenKind → Bool
  | .identifier | .number | .stringLiteral | .charLiteral | .as | .class | .object | .fun | .val
  | .var => true
  | _ => false

/-- Whether the text of tokens has a space between two kinds. -/
def needsSpace (before after : TokenKind) : Bool :=
  (isWordy before && isWordy after) || before == .comma || before == .arrow || before == .equal ||
    after == .arrow || after == .equal

/-- The text of tokens behind a token of a given kind. -/
def textAfter : Option TokenKind → List Token → String
  | _, [] => ""
  | before, t :: ts =>
    (if before.any (needsSpace · t.kind) then " " else "") ++ t.lexeme ++ textAfter (some t.kind) ts

/-- The text of a run of tokens, with spaces where two tokens would run together and around the marks
that are written with them. -/
def text (ts : List Token) : String := textAfter none ts

end Token

end ServiceCatalog
