import ServiceCatalog.Text.Letter
import ServiceCatalog.Token.Basic
import ServiceCatalog.Token.Trivia

/-!
# Lexemes

A text read as a sequence of lexemes: each is a token or a piece that is no token, with the reason.  The
last lexeme is the end of the file.

`recognize` looks at the text alone and answers what stands at its beginning and how long it is; places
in the file and the text of a token are computed from the characters taken, never carried along.  So the
lexemes and the separators between them are consecutive pieces of the text by construction.
-/

namespace ServiceCatalog

/-! ## Errors -/

/-- Why a piece of text is no token. -/
inductive LexFault where
  | unexpectedCharacter (c : Char)
  | unterminatedString
  | unterminatedComment
  | unterminatedIdentifier
  deriving DecidableEq, Repr

/-- The fault as messages name it. -/
def LexFault.text : LexFault → String
  | unexpectedCharacter c => "unexpected character '" ++ String.singleton c ++ "'"
  | unterminatedString => "unterminated string"
  | unterminatedComment => "unterminated comment"
  | unterminatedIdentifier => "unterminated quoted identifier"

/-- A piece of a source file that is no token. -/
structure LexError where
  fault : LexFault
  span : Span
  deriving DecidableEq, Repr

/-- The message of the error. -/
def LexError.message (e : LexError) : String := e.fault.text ++ " at " ++ e.span.text

/-! ## Recognition -/

/-- Whether an identifier may begin with the character. -/
def isIdentifierStart (c : Char) : Bool := Text.isAlphabetic c || c == '_'

/-- Whether an identifier may go on with the character. -/
def isIdentifierPart (c : Char) : Bool := Text.isAlphabetic c || Text.isNumeric c || c == '_'

/-- Whether a run of digits may go on with the character; radix marks, exponents and suffixes are part of
it. -/
def isNumberPart (c : Char) : Bool := c.isAlphanum || c == '_'

/-- Whether a sign may follow a run of digits: the run ends in the mark of an exponent. -/
def endsInExponent (digits : List Char) : Bool :=
  digits.getLast? = some 'e' || digits.getLast? = some 'E'

/-- The length of the rest of a number behind a run of its characters.  The letter `e` of a hexadecimal
number is a digit and allows no sign. -/
def numberLength (hexadecimal : Bool) (cs : List Char) : Nat :=
  let digits := cs.takeWhile isNumberPart
  match _h : cs.drop digits.length with
  | [] => digits.length
  | c :: rest =>
    let signed := !hexadecimal && endsInExponent digits && (c = '+' || c = '-')
    let fraction := c = '.' && rest.head?.any Char.isDigit
    if signed || fraction then digits.length + 1 + numberLength hexadecimal rest
    else digits.length
termination_by cs.length
decreasing_by
  have h := congrArg List.length _h
  simp only [List.length_drop, List.length_cons] at h
  omega

/-- Whether the character continues an operator that begins with an arithmetic or logical mark. -/
def isOperatorPart (c : Char) : Bool :=
  c = '=' || c = '&' || c = '|' || c = '+' || c = '-' || c = '!'

/-- What stands at a place of the text: the number of characters it takes after its first one, and what
it is. -/
structure Recognized where
  length : Nat
  kind : Except LexFault TokenKind

/-- Recognizes an operator or a punctuation mark.  The marks `<` and `>` stay single, so that nested type
arguments close one bracket at a time. -/
def recognizeMark (c : Char) (cs : List Char) : Recognized :=
  let single kind : Recognized := ⟨0, .ok kind⟩
  let double (next : Char) (both one : TokenKind) : Recognized :=
    if cs.head? = some next then ⟨1, .ok both⟩ else ⟨0, .ok one⟩
  match c with
  | '(' => single .leftParen
  | ')' => single .rightParen
  | '[' => single .leftBracket
  | ']' => single .rightBracket
  | '{' => single .leftBrace
  | '}' => single .rightBrace
  | ',' => single .comma
  | ';' => single .semicolon
  | '@' => single .at
  | ':' => double ':' .colonColon .colon
  | '.' =>
    if cs.head? = some '.' then ⟨if (cs.drop 1).head? = some '<' then 2 else 1, .ok .operator⟩
    else single .dot
  | '?' => double ':' .operator .question
  | '-' =>
    if cs.head? = some '>' then ⟨1, .ok .arrow⟩ else ⟨(cs.takeWhile isOperatorPart).length, .ok .operator⟩
  | '<' => double '=' .operator .less
  | '>' => double '=' .operator .greater
  | '*' => double '=' .operator .star
  | '=' =>
    if cs.head? = some '=' then ⟨(cs.takeWhile (· = '=')).length, .ok .operator⟩ else single .equal
  | '+' | '/' | '%' | '!' | '&' | '|' => ⟨(cs.takeWhile isOperatorPart).length, .ok .operator⟩
  | _ => ⟨0, .error (.unexpectedCharacter c)⟩

/-- Recognizes a literal that opens with the character and further characters. -/
def recognizeLiteral (opening : Nat) (e : Enclosure) (kind : TokenKind) (cs : List Char) : Recognized :=
  let reach := Enclosure.skip [e] (cs.drop opening)
  ⟨opening + reach.length, if reach.closed then .ok kind else .error .unterminatedString⟩

/-- Recognizes what begins with the character `c` and goes on in `cs`. -/
def recognize (c : Char) (cs : List Char) : Recognized :=
  if c = '"' then
    if cs.take 2 = ['"', '"'] then recognizeLiteral 2 .raw .stringLiteral cs
    else recognizeLiteral 0 .quoted .stringLiteral cs
  else if c = '\'' then recognizeLiteral 0 .character .charLiteral cs
  else if c = '`' then
    let name := cs.takeWhile fun d => d ≠ '`' && d ≠ '\n'
    if (cs.drop name.length).head? = some '`' then ⟨name.length + 1, .ok .identifier⟩
    else ⟨name.length, .error .unterminatedIdentifier⟩
  else if c.isDigit then
    ⟨numberLength (c = '0' && (cs.head? = some 'x' || cs.head? = some 'X')) cs, .ok .number⟩
  else if isIdentifierStart c then
    let rest := cs.takeWhile isIdentifierPart
    ⟨rest.length, .ok (.ofWord (String.ofList (c :: rest)))⟩
  else recognizeMark c cs

/-! ## Reading a text -/

/-- A token, or a piece of text that is none. -/
inductive Lexeme where
  | token (t : Token)
  | invalid (e : LexError) (newlineBefore : Bool)
  deriving DecidableEq, Repr

namespace Lexeme

/-- The token that stands for the lexeme in a listing. -/
def asToken : Lexeme → Token
  | token t => t
  | invalid e newlineBefore => ⟨.invalid, "", e.span, newlineBefore⟩

/-- The token, if the lexeme is one. -/
def token? : Lexeme → Option Token
  | token t => some t
  | invalid _ _ => none

/-- The error, if the lexeme is no token. -/
def error? : Lexeme → Option LexError
  | token _ => none
  | invalid e _ => some e

/-- The text that a token keeps of its characters: a quoted identifier loses its backticks. -/
def keptText : List Char → List Char
  | '`' :: cs => cs.dropLast
  | cs => cs

/-- The lexeme of the characters `cs` at a place. -/
def ofRecognized (p : Position) (newlineBefore : Bool) (cs : List Char) :
    Except LexFault TokenKind → Lexeme
  | .ok kind => token ⟨kind, String.ofList (keptText cs), p.spanOf cs, newlineBefore⟩
  | .error fault => invalid ⟨fault, p.spanOf cs⟩ newlineBefore

/-- The end of the file at a place. -/
def atEnd (p : Position) (newlineBefore : Bool) : Lexeme :=
  token ⟨.eof, "", .point p.line p.column, newlineBefore⟩

end Lexeme

/-- The lexemes of a text that begins at a place. -/
def lexemesFrom (p : Position) (cs : List Char) : List Lexeme :=
  let between := cs.take (gap cs).length
  let p := p.after between
  match _h : cs.drop (gap cs).length with
  | [] => [.atEnd p (between.contains '\n')]
  | c :: rest =>
    if (gap cs).unclosed then
      [.invalid ⟨.unterminatedComment, p.spanOf (c :: rest)⟩ false, .atEnd (p.after (c :: rest)) false]
    else
      let found := recognize c rest
      let taken := c :: rest.take found.length
      .ofRecognized p (between.contains '\n') taken found.kind ::
        lexemesFrom (p.after taken) (rest.drop found.length)
termination_by cs.length
decreasing_by
  have h := congrArg List.length _h
  simp only [List.length_drop, List.length_cons] at h ⊢
  omega

/-- The lexemes of a source text. -/
def lexemes (source : String) : List Lexeme :=
  let cs := source.toList
  lexemesFrom (Position.start.after (cs.take (headerLength cs))) (cs.drop (headerLength cs))

end ServiceCatalog
