import ServiceCatalog.Span

/-!
# Tokens

The tokens of a source file.  Only the keywords that shape declarations have kinds of their own; soft
keywords and modifiers are identifiers, which the parser of declarations tells apart by their text.
-/

namespace ServiceCatalog

/-- The kinds of tokens. -/
inductive TokenKind where
  | number
  | stringLiteral
  | charLiteral
  | identifier
  | «package»
  | «import»
  | as
  | «class»
  | interface
  | object
  | typealias
  | «fun»
  | val
  | var
  | leftParen
  | rightParen
  | leftBracket
  | rightBracket
  | leftBrace
  | rightBrace
  | comma
  | dot
  | colon
  | colonColon
  | semicolon
  | question
  | «at»
  | less
  | greater
  | arrow
  | star
  | equal
  | operator
  | invalid
  | eof
  deriving DecidableEq, Repr, Inhabited

namespace TokenKind

/-- Whether the token opens a bracketed group. -/
def isOpening : TokenKind → Bool
  | leftParen | leftBracket | leftBrace => true
  | _ => false

/-- Whether the token closes a bracketed group. -/
def isClosing : TokenKind → Bool
  | rightParen | rightBracket | rightBrace => true
  | _ => false

/-- The bracket that closes the group which this token opens. -/
def closing? : TokenKind → Option TokenKind
  | leftParen => some rightParen
  | leftBracket => some rightBracket
  | leftBrace => some rightBrace
  | _ => none

/-- The kind as error messages name it. -/
def description : TokenKind → String
  | number => "number"
  | stringLiteral => "string literal"
  | charLiteral => "character literal"
  | identifier => "identifier"
  | «package» => "'package'"
  | «import» => "'import'"
  | as => "'as'"
  | «class» => "'class'"
  | interface => "'interface'"
  | object => "'object'"
  | typealias => "'typealias'"
  | «fun» => "'fun'"
  | val => "'val'"
  | var => "'var'"
  | leftParen => "'('"
  | rightParen => "')'"
  | leftBracket => "'['"
  | rightBracket => "']'"
  | leftBrace => "'\x7b'"
  | rightBrace => "'\x7d'"
  | comma => "','"
  | dot => "'.'"
  | colon => "':'"
  | colonColon => "'::'"
  | semicolon => "';'"
  | question => "'?'"
  | «at» => "'@'"
  | less => "'<'"
  | greater => "'>'"
  | arrow => "'->'"
  | star => "'*'"
  | equal => "'='"
  | operator => "operator"
  | invalid => "invalid token"
  | eof => "end of file"

/-- The kind of an identifier's text: a hard keyword has its own. -/
def ofWord : String → TokenKind
  | "package" => «package»
  | "import" => «import»
  | "as" => as
  | "class" => «class»
  | "interface" => interface
  | "object" => object
  | "typealias" => typealias
  | "fun" => «fun»
  | "val" => val
  | "var" => var
  | _ => identifier

theorem isOpening_iff {k : TokenKind} : k.isOpening = true ↔ ∃ c, k.closing? = some c := by
  cases k <;> simp [isOpening, closing?]

theorem isClosing_of_closing? {k c : TokenKind} (h : k.closing? = some c) : c.isClosing = true := by
  cases k <;> simp [closing?] at h <;> subst h <;> rfl

end TokenKind

/-- A token.  The lexeme of a quoted identifier has no backticks, that of an invalid token and of the end
of the file is empty. -/
structure Token where
  kind : TokenKind
  lexeme : String
  span : Span
  /-- Whether a line feed separates the token from the one before it. -/
  newlineBefore : Bool
  deriving DecidableEq, Repr, Inhabited

/-- The token as error messages show it. -/
def Token.describe (t : Token) : String :=
  match t.kind with
  | .identifier => "identifier '" ++ t.lexeme ++ "'"
  | .eof => TokenKind.eof.description
  | _ => "'" ++ t.lexeme ++ "'"

end ServiceCatalog
