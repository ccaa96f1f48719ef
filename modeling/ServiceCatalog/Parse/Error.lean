import ServiceCatalog.Span
import ServiceCatalog.Text.Split

/-!
# Errors of the declaration parser

A parse error has a kind, a place and a message of its own.  It is shown in two ways: on one line
(`ParseError.text`), and with the offending source line and a pointer under it (`ParseError.render`).
The parser recovers where the next member begins, so a file can have several errors; `listing` shows them
one a line.
-/

namespace ServiceCatalog

/-- The kinds of parse errors. -/
inductive ParseFault where
  | expectedToken
  | unexpectedToken
  | unexpectedEof
  | expectedIdentifier
  | expectedType
  | expectedDeclaration
  | mismatchedDelimiter
  | invalidSyntax
  deriving DecidableEq, Repr, Inhabited

/-- The kind as messages name it. -/
def ParseFault.text : ParseFault → String
  | expectedToken => "expected token"
  | unexpectedToken => "unexpected token"
  | unexpectedEof => "unexpected end of file"
  | expectedIdentifier => "expected identifier"
  | expectedType => "expected type"
  | expectedDeclaration => "expected declaration"
  | mismatchedDelimiter => "mismatched delimiter"
  | invalidSyntax => "invalid syntax"

/-- An error with its place in the source. -/
structure ParseError where
  fault : ParseFault
  span : Span
  message : String
  deriving DecidableEq, Repr, Inhabited

namespace ParseError

/-- A token of one kind was expected and another one found. -/
def expectedToken (span : Span) (expected found : String) : ParseError :=
  ⟨.expectedToken, span, "expected " ++ expected ++ ", found " ++ found⟩

/-- An identifier was expected. -/
def expectedIdentifier (span : Span) (found : String) : ParseError :=
  ⟨.expectedIdentifier, span, "expected identifier, found " ++ found⟩

/-- The file ended too early. -/
def unexpectedEof (span : Span) : ParseError := ⟨.unexpectedEof, span, "unexpected end of file"⟩

/-- The error on one line. -/
def text (e : ParseError) : String := e.fault.text ++ " at " ++ e.span.text ++ ": " ++ e.message

/-- The mark under the offending stretch of a line: an arrow head and a tail as long as the stretch. -/
def pointer (length : Nat) : String := "^" ++ Text.repeated (length - 1) '~'

/-- The offending line of the source with a pointer under it, if the source has the line. -/
def excerpt (span : Span) (source : String) : String :=
  match span.line with
  | 0 => ""
  | index + 1 =>
    match (Text.lines source)[index]? with
    | none => ""
    | some line =>
      "  |\n" ++ Text.padLeft 3 (toString span.line) ++ " | " ++ line ++ "\n" ++
        "  | " ++ Text.repeated (span.column - 1) ' ' ++ pointer span.length ++ "\n"

/-- The error with the source line it points at. -/
def render (e : ParseError) (source : String) : String :=
  "Error at " ++ e.span.text ++ ": " ++ e.fault.text ++ "\n" ++
    (if e.message = "" then "" else "  " ++ e.message ++ "\n") ++ excerpt e.span source

/-- Several errors, one a line. -/
def listing (errors : List ParseError) : String := Text.joined '\n' (errors.map text)

end ParseError

end ServiceCatalog
