import ServiceCatalog.Parse.Group

/-!
# Where members begin and end

Members of a class, and the declarations of a file, have no mark at their end when each stands on a line
of its own.  A member that the parser does not model is therefore passed up to the place where the next
one begins, and `Cursor.isAtMember` says where that is.

A keyword begins a member unless it is a selector (`Foo::class`), an object only if it has a name, and a
modifier or an annotation only at the beginning of a line, since modifiers are words of expressions too.
-/

namespace ServiceCatalog

/-- The words that may stand before the keyword of a declaration. -/
def modifiers : List String :=
  ["public", "private", "protected", "internal", "abstract", "final", "open", "sealed", "data",
    "enum", "annotation", "inner", "value", "inline", "companion", "expect", "actual", "external",
    "override", "lateinit", "const", "suspend", "tailrec", "operator", "infix", "noinline",
    "crossinline", "vararg", "reified"]

/-- Whether a word is a modifier. -/
def isModifier (word : String) : Bool := modifiers.contains word

/-- Whether a token may follow a modifier at the beginning of a member. -/
def followsModifier : TokenKind → Bool
  | .identifier | .at | .class | .interface | .object | .fun | .val | .var | .typealias => true
  | _ => false

/-- Whether the token passed last selects a member of what stands before it. -/
def Cursor.isAfterSelector (c : Cursor) : Bool :=
  match c.previous with
  | some t => t.kind == .dot || t.kind == .colonColon
  | none => false

/-- Whether the next token can begin a member. -/
def Cursor.isAtMember (c : Cursor) : Bool :=
  match c.kind with
  | .class | .interface | .fun | .val | .var | .typealias => !c.isAfterSelector
  | .object => !c.isAfterSelector && c.secondKind == .identifier
  | .at => c.peek.newlineBefore
  | .identifier => c.peek.newlineBefore && isModifier c.peek.lexeme && followsModifier c.secondKind
  | _ => false

/-- The error for a bracket that closes nothing. -/
def strayBracket (t : Token) : ParseError :=
  ⟨.mismatchedDelimiter, t.span, "unexpected " ++ t.kind.description⟩

/-- Passes the rest of a member, with the errors found in it.  It ends before the next member, before a
closing brace, behind a semicolon, or where a group does not close; `first` says that nothing of it has
been passed, for then it cannot end before the next member. -/
def skipMemberFrom (first : Bool) (c : Cursor) : List ParseError × Cursor :=
  match c.kind with
  | .eof | .rightBrace => ([], c)
  | .semicolon => ([], c.advance)
  | kind =>
    if !first && c.isAtMember then ([], c)
    else if kind = .rightParen || kind = .rightBracket then
      let c' := c.advance
      let (errors, stop) := if c'.size < c.size then skipMemberFrom false c' else ([], c')
      (strayBracket c.peek :: errors, stop)
    else
      match TokenParser.skipOne c with
      | .error e c' => ([e], c')
      | .ok _ c' => if c'.size < c.size then skipMemberFrom false c' else ([], c')
termination_by c.size

/-- Passes a member that the parser does not model: at least one token, unless at a closing brace or at
the end of the file. -/
def skipMember (c : Cursor) : List ParseError × Cursor := skipMemberFrom true c

end ServiceCatalog
