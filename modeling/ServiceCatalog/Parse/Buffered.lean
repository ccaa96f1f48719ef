import ServiceCatalog.Parse.Declaration

/-!
# The parser over a buffer

The parser with all that one of its steps can change: the tokens of the file in a buffer, a position in it, and the
errors recorded so far.  The end of the file is the last token of the buffer, and it is never passed.  Nothing else
holds a step back.  A construct that is tried leaves the position wherever it failed; whoever gives it up sets the
position back to where it began.

The loops are of one form, `repeated`: a test, an item, and whether to go on behind it.  As for token parsers, a loop
goes on only if it has passed a token, and types and values are read only `below` the place where the type or the value
around them began.

* `BufferedParser`: the state, with what can be seen at its position.
* `Parsing`: the parsers of the constructs, each of which moves the position, be it that it fails.
* `Parsing.Operation`: what can be done with a parser from outside.
-/

namespace ServiceCatalog

/-- The tokens of a file, a position among them, and the errors recorded so far. -/
structure BufferedParser where
  buffer : List Token
  position : Nat
  errors : List ParseError
  deriving Inhabited

namespace BufferedParser

/-- The parser at the beginning of a source text.  Pieces of the text that are no tokens are errors. -/
def ofSource (source : String) : BufferedParser :=
  ⟨(lexemes source).filterMap Lexeme.token?, 0, (Parser.ofSource source).errors⟩

/-- The token `n` places ahead; past the last token, the last one. -/
def peekNth (p : BufferedParser) (n : Nat) : Token :=
  p.buffer.getD (min (p.position + n) (p.buffer.length - 1)) Cursor.emptyEof

/-- The next token. -/
def peek (p : BufferedParser) : Token := p.peekNth 0

/-- The kind of the next token. -/
def kind (p : BufferedParser) : TokenKind := p.peek.kind

/-- The kind of the token after the next one. -/
def secondKind (p : BufferedParser) : TokenKind := (p.peekNth 1).kind

/-- Whether the next token has a given kind. -/
def isAt (p : BufferedParser) (k : TokenKind) : Bool := p.kind == k

/-- Whether the next token is an identifier with a given text. -/
def isAtWord (p : BufferedParser) (word : String) : Bool := p.isAt .identifier && p.peek.lexeme == word

/-- The token passed last. -/
def previous? (p : BufferedParser) : Option Token :=
  match p.position with
  | 0 => none
  | i + 1 => p.buffer[i]?

/-- The parser at another position. -/
def moveTo (p : BufferedParser) (i : Nat) : BufferedParser := { p with position := i }

/-- The parser behind the next token, unless that one is the end of the file. -/
def advance (p : BufferedParser) : BufferedParser := if p.isAt .eof then p else p.moveTo (p.position + 1)

/-- The number of tokens from the position on. -/
def remaining (p : BufferedParser) : Nat := p.buffer.length - p.position

/-- The span from a place up to the token passed last. -/
def spanSince (p : BufferedParser) (start : Span) : Span :=
  match p.previous? with
  | some t => start.merge t.span
  | none => start

/-- The text of the tokens passed since a position. -/
def textSince (p : BufferedParser) (start : Nat) : String := Token.text ((p.buffer.take p.position).drop start)

/-- Records an error. -/
def record (p : BufferedParser) (e : ParseError) : BufferedParser := { p with errors := p.errors ++ [e] }

/-- Forgets the errors. -/
def forgetErrors (p : BufferedParser) : BufferedParser := { p with errors := [] }

end BufferedParser

/-- A parser of a construct over a buffer. -/
abbrev Parsing (α : Type) := EStateM ParseError BufferedParser α

namespace Parsing

variable {α : Type}

/-! ## Single tokens -/

/-- The position. -/
def position : Parsing Nat := fun p => .ok p.position p

/-- Sets the position. -/
def moveTo (i : Nat) : Parsing Unit := fun p => .ok () (p.moveTo i)

/-- The token `n` places ahead. -/
def peekNth (n : Nat) : Parsing Token := fun p => .ok (p.peekNth n) p

/-- The place of the next token. -/
def nextSpan : Parsing Span := fun p => .ok p.peek.span p

/-- Whether a test holds. -/
def test (t : BufferedParser → Bool) : Parsing Bool := fun p => .ok (t p) p

/-- Passes the next token. -/
def next : Parsing Token := fun p => .ok p.peek p.advance

/-- Fails with an error about the next token. -/
def failAtNext (e : Token → ParseError) : Parsing α := fun p => .error (e p.peek) p

/-- Passes the next token if it has a given kind. -/
def eat (k : TokenKind) : Parsing (Option Token) := fun p =>
  if p.isAt k then .ok (some p.peek) p.advance else .ok none p

/-- Passes a token of a given kind, or fails. -/
def expect (k : TokenKind) : Parsing Token := fun p =>
  if p.isAt k then .ok p.peek p.advance
  else .error (TokenParser.unexpected (fun t => .expectedToken t.span k.description t.describe) p.peek) p

/-- Passes an identifier, or fails. -/
def identifier : Parsing Ident := do
  match ← eat .identifier with
  | some t => return ⟨t.lexeme, t.span⟩
  | none => failAtNext (TokenParser.unexpected fun t => .expectedIdentifier t.span t.describe)

/-- The span from a place up to the token passed last. -/
def spanSince (start : Span) : Parsing Span := fun p => .ok (p.spanSince start) p

/-- The text of the tokens passed since a position. -/
def textSince (start : Nat) : Parsing String := fun p => .ok (p.textSince start) p

/-! ## Trying, repeating and descending -/

/-- The result of a parser, or none where it fails.  The position stays where it failed. -/
def attempt (t : Parsing α) : Parsing (Option α) := fun p =>
  match t p with
  | .ok a p' => .ok (some a) p'
  | .error _ p' => .ok none p'

/-- A parser that may only be called with fewer tokens to come than at `start`. -/
def below (start : BufferedParser)
    (t : (p : BufferedParser) → p.remaining < start.remaining → EStateM.Result ParseError BufferedParser α) : Parsing α :=
  fun p => if h : p.remaining < start.remaining then t p h else .error (.unexpectedEof p.peek.span) p

/-- Reads items while a test holds and each of them is to be followed by another one. -/
def repeated (t : BufferedParser → Bool) (item : Parsing α) (more : Parsing Bool) (p : BufferedParser) :
    EStateM.Result ParseError BufferedParser (List α) :=
  if t p then
    match (do let a ← item; return (a, ← more) : Parsing (α × Bool)) p with
    | .error e p' => .error e p'
    | .ok (a, goesOn) p' =>
      if goesOn && p'.remaining < p.remaining then
        match repeated t item more p' with
        | .error e p'' => .error e p''
        | .ok as p'' => .ok (a :: as) p''
      else .ok [a] p'
  else .ok [] p
termination_by p.remaining
decreasing_by simp_all

/-- Reads items while a test holds. -/
def manyWhile (t : BufferedParser → Bool) (item : Parsing α) : Parsing (List α) := repeated t item (pure true)

/-- Passes a comma if one comes next, and says whether it did. -/
def eatComma : Parsing Bool := return (← eat .comma).isSome

/-! ## Groups -/

/-- The brackets that are due behind a token, where one is due already.  There is no answer where another one is
closed. -/
def dueBehind (due : TokenKind) (outer : List TokenKind) (k : TokenKind) : Option (List TokenKind) :=
  match k.closing? with
  | some closing => some (closing :: due :: outer)
  | none => if k.isClosing then if k = due then some outer else none else some (due :: outer)

/-- Passes the tokens up to the end of the groups that are due. -/
def closeGroups (due : List TokenKind) (p : BufferedParser) : EStateM.Result ParseError BufferedParser Unit :=
  match due with
  | [] => .ok () p
  | due :: outer =>
    if p.isAt .eof then .error (.unexpectedEof p.peek.span) p
    else
      match dueBehind due outer p.kind with
      | none => .error (TokenParser.mismatched due p.peek) p
      | some due' => if p.advance.remaining < p.remaining then closeGroups due' p.advance else .ok () p.advance
termination_by p.remaining

/-- Passes the bracketed group that opens with the next token. -/
def skipBalanced : Parsing Unit := do
  let opening ← next
  match opening.kind.closing? with
  | none => throw (TokenParser.notOpening opening)
  | some closing => closeGroups [closing]

/-! ## Constructs over the parsers of types and values -/

section Constructs

variable (type : Parsing TypeRef) (value : Parsing Expr)

/-- Whether a dot and an identifier come next. -/
def isAtDotIdentifier (p : BufferedParser) : Bool := p.isAt .dot && p.secondKind == .identifier

/-- Passes a dot before an identifier, and says whether it did. -/
def eatDot : Parsing Bool := do
  if ← test isAtDotIdentifier then
    let _ ← next
    return true
  else return false

/-- Whether a variance mark comes next: one of two words with a type behind it. -/
def isAtVariance (p : BufferedParser) : Bool :=
  (p.isAtWord "in" || p.isAtWord "out") &&
    (p.secondKind == .identifier || p.secondKind == .leftParen || p.secondKind == .at)

/-- Reads one type argument. -/
def typeArgument : Parsing TypeArgument := do
  match ← eat .star with
  | some t => return .star t.span
  | none =>
    if ← test isAtVariance then
      let _ ← next
    return .type (← type)

/-- Reads a list of type arguments. -/
def typeArguments : Parsing (List TypeArgument) := do
  let _ ← expect .less
  let arguments ← repeated (fun _ => true) (typeArgument type) eatComma
  let _ ← expect .greater
  return arguments

/-- Reads one segment of a named type that begins at a place. -/
def typeSegment (start : Span) : Parsing TypeSegment := do
  let name ← identifier
  let arguments ← if ← test (·.isAt .less) then typeArguments type else pure []
  return ⟨name, arguments, ← spanSince start⟩

/-- Reads a named type. -/
def userTypeWith : Parsing UserType := do
  let start ← nextSpan
  match ← repeated (fun _ => true) (typeSegment type start) eatDot with
  | [] => throw (.expectedIdentifier start "nothing")
  | first :: others => return TokenParser.userTypeOf first others

/-- Reads a function type from its parameters onwards.  Its receiver began at a given place. -/
def functionTail (start : Span) : Parsing TypeElement := do
  if ← test (fun p => !p.isAt .leftParen) then
    failAtNext fun t => .expectedToken t.span TokenKind.leftParen.description t.describe
  skipBalanced
  let _ ← expect .arrow
  let _ ← type
  return .function (← spanSince start)

/-- Reads a type in parentheses that is not the parameter list of a function type. -/
def parenthesized : Parsing (Option TypeElement) := do
  let _ ← next
  match ← attempt type with
  | none => return none
  | some inner =>
    if (← eat .rightParen).isNone then return none
    if ← test (·.isAt .arrow) then return none
    return some inner.element

/-- Reads what opens with a parenthesis. -/
def parenthesizedOrFunction : Parsing TypeElement := do
  let start ← nextSpan
  let saved ← position
  match ← parenthesized type with
  | some element => return element
  | none =>
    moveTo saved
    functionTail type start

/-- Reads a type that begins with a name. -/
def namedOrFunction (start : Span) : Parsing TypeElement := do
  let user ← userTypeWith type
  if ← test (fun p => p.isAt .dot && p.secondKind == .leftParen) then
    let _ ← next
    functionTail type start
  else return .user user

/-- Reads the shape of a type. -/
def typeElement : Parsing TypeElement := do
  let start ← nextSpan
  let element ← match (← peekNth 0).kind with
    | .leftParen => parenthesizedOrFunction type
    | .identifier => namedOrFunction type start
    | _ => failAtNext TokenParser.expectedType
  let marks ← manyWhile (·.isAt .question) next
  return TokenParser.nullable marks.length element

/-- Whether the target of an annotation comes next. -/
def isAtUseSite (p : BufferedParser) : Bool :=
  p.isAt .identifier && p.secondKind == .colon && TokenParser.useSites.contains p.peek.lexeme

/-- Reads the value of an annotation argument, with its name. -/
def argument : Parsing Argument := do
  let start ← nextSpan
  let name ← if ← test (fun p => p.isAt .identifier && p.secondKind == .equal) then
      let name ← next
      let _ ← next
      pure (some ⟨name.lexeme, name.span⟩)
    else pure none
  let star ← eat .star
  let value ← value
  return ⟨name, star.isSome, value, ← spanSince start⟩

/-- Reads the arguments of an annotation in parentheses. -/
def valueArgumentsWith : Parsing (List Argument) := do
  let _ ← expect .leftParen
  let arguments ← repeated (fun p => !p.isAt .rightParen) (argument value) eatComma
  let _ ← expect .rightParen
  return arguments

/-- Whether arguments follow the name of an annotation: they must stand on its line. -/
def isAtArguments (p : BufferedParser) : Bool := p.isAt .leftParen && !p.peek.newlineBefore

/-- Reads an annotation from its name onwards. -/
def annotationBody (start : Span) (useSite : Option Ident) : Parsing AnnotationUse := do
  let place ← position
  let name ← nextSpan
  let user ← userTypeWith type
  let reference : TypeRef := ⟨.user user, [], ← textSince place, ← spanSince name⟩
  let arguments ← if ← test isAtArguments then valueArgumentsWith value else pure []
  return ⟨useSite, reference, arguments, ← spanSince start⟩

/-- Reads one annotation. -/
def annotationWith : Parsing AnnotationUse := do
  let mark ← expect .at
  let useSite ← if ← test isAtUseSite then
      let target ← next
      let _ ← next
      pure (some ⟨target.lexeme, target.span⟩)
    else pure none
  annotationBody type value mark.span useSite

/-- Reads the annotations of one mark: a single one, or a list of them in brackets. -/
def annotationGroup : Parsing (List AnnotationUse) := do
  if ← test (·.secondKind == .leftBracket) then
    let mark ← next
    let _ ← next
    let entries ← manyWhile (fun p => !p.isAt .rightBracket) (annotationBody type value mark.span none)
    let _ ← expect .rightBracket
    return entries
  else return [← annotationWith type value]

/-- Reads the annotations that come next. -/
def annotationsWith : Parsing (List AnnotationUse) := do
  return (← manyWhile (·.isAt .at) (annotationGroup type value)).flatten

/-- Whether the mark of a suspending function type comes next. -/
def isAtSuspend (p : BufferedParser) : Bool :=
  p.isAtWord "suspend" && (p.secondKind == .leftParen || p.secondKind == .identifier)

/-- Reads a type, given parsers for the types and the values inside it. -/
def typeWith : Parsing TypeRef := do
  let place ← position
  let start ← nextSpan
  let annotations ← manyWhile (·.isAt .at) (annotationWith type value)
  if ← test isAtSuspend then
    let _ ← next
  let element ← typeElement type
  return ⟨element, annotations, ← textSince place, ← spanSince start⟩

/-! ## Values -/

/-- Whether an argument ends here. -/
def isAtArgumentEnd (p : BufferedParser) : Bool :=
  p.isAt .comma || p.isAt .rightParen || p.isAt .rightBracket || p.isAt .eof

/-- Passes a dot and the identifier behind it. -/
def dotIdentifier : Parsing Ident := do
  let _ ← next
  let name ← next
  return ⟨name.lexeme, name.span⟩

/-- Reads the receiver of a class literal, if there is one. -/
def receiver? : Parsing (Option Expr) := do
  let start ← nextSpan
  let some first ← eat .identifier | return none
  let others ← manyWhile isAtDotIdentifier dotIdentifier
  let first : Ident := ⟨first.lexeme, first.span⟩
  if ← test (·.isAt .less) then
    let some arguments ← attempt (typeArguments type) | return none
    let user := TokenParser.receiverType start arguments first others
    return some (.type ⟨.user user, [], user.render, ← spanSince start⟩)
  else match others with
    | [] => return some (.name first)
    | _ :: _ => return some (.path ⟨first :: others, ← spanSince start⟩)

/-- Reads a class literal, if there is one.  If there is none, the position is anywhere behind. -/
def classLiteral? : Parsing (Option Expr) := do
  let start ← nextSpan
  let some receiver ← receiver? type | return none
  let some _ ← eat .colonColon | return none
  let some _ ← eat .class | return none
  return some (.classLiteral receiver (← spanSince start))

/-- Reads a collection literal. -/
def collection : Parsing Expr := do
  let mark ← expect .leftBracket
  let elements ← repeated (fun p => !p.isAt .rightBracket) value eatComma
  let _ ← expect .rightBracket
  return .collection elements (← spanSince mark.span)

/-- Passes a group or another token of an argument; a brace cannot close there. -/
def skipPart : Parsing Unit := do
  if ← test (·.kind.isOpening) then skipBalanced
  else if ← test (·.isAt .rightBrace) then failAtNext TokenParser.strayBrace
  else
    let _ ← next

/-- Passes the tokens up to the end of an argument. -/
def skipArgument : Parsing Unit := do
  let _ ← manyWhile (fun p => !isAtArgumentEnd p) skipPart

/-- Reads an expression as text, up to the end of the argument. -/
def otherValue (place : Nat) (start : Span) : Parsing Expr := do
  skipArgument
  if (← position) = place then failAtNext TokenParser.expectedExpression
  return .other (← textSince place) (← spanSince start)

/-- Reads a collection literal, or a class literal if one comes next. -/
def structuredValue : Parsing (Option Expr) := do
  if ← test (·.isAt .leftBracket) then return some (← collection value)
  else classLiteral? type

/-- Reads the value of an argument, given parsers for the types and the values inside it. -/
def valueWith : Parsing Expr := do
  let place ← position
  let start ← nextSpan
  match ← structuredValue type value, ← test isAtArgumentEnd with
  | some e, true => return e
  | _, _ =>
    moveTo place
    otherValue place start

end Constructs

/-! ## The knot -/

mutual

/-- Reads a type. -/
def type (p : BufferedParser) : EStateM.Result ParseError BufferedParser TypeRef :=
  typeWith (below p fun p' _ => type p') (below p fun p' _ => value p') p
termination_by p.remaining

/-- Reads the value of an annotation argument. -/
def value (p : BufferedParser) : EStateM.Result ParseError BufferedParser Expr :=
  valueWith (below p fun p' _ => type p') (below p fun p' _ => value p') p
termination_by p.remaining

end

/-! ## Operations -/

/-- What can be done with a parser from outside. -/
inductive Operation where
  | peek (n : Nat)
  | advance
  | eat (k : TokenKind)
  | expect (k : TokenKind)
  | skipBalanced
  | type
  | userType
  | annotation
  | annotations
  | valueArguments
  | argumentExpression
  | error (e : ParseError)
  | takeErrors

namespace Operation

/-- What an operation answers. -/
def Answer : Operation → Type
  | peek _ | advance | expect _ => Token
  | eat _ => Option Token
  | skipBalanced | error _ => Unit
  | type => TypeRef
  | userType => UserType
  | annotation => AnnotationUse
  | annotations => List AnnotationUse
  | valueArguments => List Argument
  | argumentExpression => Expr
  | takeErrors => List ParseError

/-- Does what an operation says. -/
def run : (o : Operation) → Parsing o.Answer
  | peek n => Parsing.peekNth n
  | advance => Parsing.next
  | eat k => Parsing.eat k
  | expect k => Parsing.expect k
  | skipBalanced => Parsing.skipBalanced
  | type => Parsing.type
  | userType => userTypeWith Parsing.type
  | annotation => annotationWith Parsing.type Parsing.value
  | annotations => annotationsWith Parsing.type Parsing.value
  | valueArguments => valueArgumentsWith Parsing.value
  | argumentExpression => Parsing.value
  | error e => fun p => .ok () (p.record e)
  | takeErrors => fun p => .ok p.errors p.forgetErrors

/-- The parser behind an operation, be it that it failed. -/
def after (o : Operation) (p : BufferedParser) : BufferedParser :=
  match o.run p with
  | .ok _ p' => p'
  | .error _ p' => p'

end Operation

end Parsing

end ServiceCatalog
