import ServiceCatalog.Parse.Group
import ServiceCatalog.Tree

/-!
# Types, annotations and their arguments

The grammar of what is read inside the head of a declaration:

    type       := annotation* 'suspend'? element '?'*
    element    := '(' type ')' | function | named
    function   := (named '.')? group '->' type
    named      := IDENT arguments? ('.' IDENT arguments?)*
    arguments  := '<' ('*' | variance? type) (',' ...)* '>'
    annotation := '@' (target ':')? named values?
    values     := '(' ((IDENT '=')? '*'? value ','?)* ')'
    value      := named '::' 'class' | '[' (value ','?)* ']' | anything

Each construct is a parser that takes the parsers of types and of values as arguments, so each is plain
code without recursion.  The knot is tied once at the end: a type and a value may contain types and
values, but only with fewer tokens to come.

Two constructs are tried and given up.  What opens with a parenthesis is a type in parentheses unless an
arrow follows it, and a value is a class literal or a collection unless something other than the end of
the argument follows; then its tokens are passed again, as a group or as text.
-/

namespace ServiceCatalog

namespace TokenParser

/-- The places an annotation may be aimed at. -/
def useSites : List String :=
  ["file", "property", "field", "get", "set", "receiver", "param", "setparam", "delegate"]

/-- Passes an identifier, or fails. -/
def identifier : TokenParser Ident := fun c =>
  if c.isAt .identifier then .ok ⟨c.peek.lexeme, c.peek.span⟩ c.advance
  else .error (unexpected (fun t => .expectedIdentifier t.span t.describe) c.peek) c

/-- Whether a dot and an identifier come next. -/
def isAtDotIdentifier (c : Cursor) : Bool := c.isAt .dot && c.secondKind == .identifier

/-- Passes a dot and the identifier behind it. -/
def dotIdentifier : TokenParser Ident := do
  let _ ← next
  identifier

/-! ## Constructs over the parsers of types and values -/

section Constructs

variable (type : TokenParser TypeRef) (value : TokenParser Expr)

/-- Reads items up to a closing bracket, with commas between them and possibly after the last. -/
def commaList {α : Type} (close : TokenKind) (item : TokenParser α) : TokenParser (List α) := do
  if ← test (·.isAt close) then return []
  let first ← item
  let others ← manyWhile (fun c => c.isAt .comma && c.secondKind != close) (do let _ ← next; item)
  let _ ← eat .comma
  return first :: others

/-- Whether a variance mark comes next: one of two words with a type behind it. -/
def isAtVariance (c : Cursor) : Bool :=
  (c.isAtWord "in" || c.isAtWord "out") &&
    (c.secondKind == .identifier || c.secondKind == .leftParen || c.secondKind == .at)

/-- Reads one type argument. -/
def typeArgument : TokenParser TypeArgument := do
  match ← eat? .star with
  | some t => return .star t.span
  | none =>
    if ← test isAtVariance then
      let _ ← next
    return .type (← type)

/-- Reads a list of type arguments. -/
def typeArguments : TokenParser (List TypeArgument) := do
  let _ ← expect .less
  let first ← typeArgument type
  let others ← manyWhile (·.isAt .comma) (do let _ ← next; typeArgument type)
  let _ ← expect .greater
  return first :: others

/-- Reads one segment of a named type that begins at a place. -/
def typeSegment (start : Span) : TokenParser TypeSegment := do
  let name ← identifier
  let arguments ← if ← test (·.isAt .less) then typeArguments type else pure []
  return ⟨name, arguments, ← spanFrom start⟩

/-- The named type with given segments. -/
def userTypeOf : TypeSegment → List TypeSegment → UserType
  | first, [] => ⟨[], first⟩
  | first, others@(_ :: _) => ⟨first :: others.dropLast, others.getLastD first⟩

/-- Reads a named type. -/
def userTypeWith : TokenParser UserType := do
  let start ← nextSpan
  let first ← typeSegment type start
  let others ← manyWhile isAtDotIdentifier (do let _ ← next; typeSegment type start)
  return userTypeOf first others

/-- Reads a function type from its parameters onwards.  Its receiver began at a given place. -/
def functionTail (start : Span) : TokenParser TypeElement := do
  if ← test (fun c => !c.isAt .leftParen) then failExpecting TokenKind.leftParen.description
  skipGroup
  let _ ← expect .arrow
  let _ ← type
  return .function (← spanFrom start)

/-- Reads a type in parentheses that is not the parameter list of a function type. -/
def parenthesized : TokenParser (Option TypeElement) := do
  let _ ← next
  match ← attempt type with
  | none => return none
  | some inner =>
    if !(← eat .rightParen) then return none
    if ← test (·.isAt .arrow) then return none
    return some inner.element

/-- Reads what opens with a parenthesis. -/
def parenthesizedOrFunction : TokenParser TypeElement := do
  let start ← here
  match ← parenthesized type with
  | some element => return element
  | none =>
    goBack start
    functionTail type start.peek.span

/-- Reads a type that begins with a name. -/
def namedOrFunction : TokenParser TypeElement := do
  let start ← nextSpan
  let user ← userTypeWith type
  if ← test (fun c => c.isAt .dot && c.secondKind == .leftParen) then
    let _ ← next
    functionTail type start
  else return .user user

/-- The element with a number of question marks behind it. -/
def nullable : Nat → TypeElement → TypeElement
  | 0, e => e
  | n + 1, e => nullable n (.nullable e)

/-- The error for a token that begins no type. -/
def expectedType (found : Token) : ParseError :=
  ⟨.expectedType, found.span, "expected type, found " ++ found.describe⟩

/-- Reads the shape of a type. -/
def typeElement : TokenParser TypeElement := do
  let element ← match (← here).kind with
    | .leftParen => parenthesizedOrFunction type
    | .identifier => namedOrFunction type
    | _ => failAtNext expectedType
  let marks ← manyWhile (·.isAt .question) next
  return nullable marks.length element

/-- Whether the target of an annotation comes next. -/
def isAtUseSite (c : Cursor) : Bool :=
  c.isAt .identifier && c.secondKind == .colon && useSites.contains c.peek.lexeme

/-- Reads the value of an annotation argument, with its name. -/
def argument : TokenParser Argument := do
  let start ← nextSpan
  let name ← if ← test (fun c => c.isAt .identifier && c.secondKind == .equal) then
      let name ← identifier
      let _ ← next
      pure (some name)
    else pure none
  let isSpread ← eat .star
  let value ← value
  return ⟨name, isSpread, value, ← spanFrom start⟩

/-- Reads the arguments of an annotation in parentheses. -/
def valueArgumentsWith : TokenParser (List Argument) := do
  let _ ← expect .leftParen
  let arguments ← commaList .rightParen (argument value)
  let _ ← expect .rightParen
  return arguments

/-- Whether arguments follow the name of an annotation: they must stand on its line. -/
def isAtArguments (c : Cursor) : Bool := c.isAt .leftParen && !c.peek.newlineBefore

/-- Reads an annotation from its name onwards. -/
def annotationBody (start : Span) (useSite : Option Ident) : TokenParser AnnotationUse := do
  let name ← here
  let user ← userTypeWith type
  let reference : TypeRef := ⟨.user user, [], ← textSince name, ← spanFrom name.peek.span⟩
  let arguments ← if ← test isAtArguments then valueArgumentsWith value else pure []
  return ⟨useSite, reference, arguments, ← spanFrom start⟩

/-- Reads one annotation. -/
def annotationWith : TokenParser AnnotationUse := do
  let mark ← expect .at
  let useSite ← if ← test isAtUseSite then
      let target ← identifier
      let _ ← next
      pure (some target)
    else pure none
  annotationBody type value mark.span useSite

/-- Reads the annotations of one mark: a single one, or a list of them in brackets. -/
def annotationGroup : TokenParser (List AnnotationUse) := do
  if ← test (·.secondKind == .leftBracket) then
    let mark ← next
    let _ ← next
    let entries ← manyWhile (fun c => !c.isAt .rightBracket) (annotationBody type value mark.span none)
    let _ ← expect .rightBracket
    return entries
  else return [← annotationWith type value]

/-- Reads the annotations that come next. -/
def annotationsWith : TokenParser (List AnnotationUse) := do
  return (← manyWhile (·.isAt .at) (annotationGroup type value)).flatten

/-- Whether the mark of a suspending function type comes next. -/
def isAtSuspend (c : Cursor) : Bool :=
  c.isAtWord "suspend" && (c.secondKind == .leftParen || c.secondKind == .identifier)

/-- Reads a type, given parsers for the types and the values inside it. -/
def typeWith : TokenParser TypeRef := do
  let start ← here
  let annotations ← manyWhile (·.isAt .at) (annotationWith type value)
  if ← test isAtSuspend then
    let _ ← next
  let element ← typeElement type
  return ⟨element, annotations, ← textSince start, ← spanFrom start.peek.span⟩

/-! ## Values -/

/-- Whether an argument ends here. -/
def isAtArgumentEnd (c : Cursor) : Bool :=
  c.isAt .comma || c.isAt .rightParen || c.isAt .rightBracket || c.isAt .eof

/-- The named type of a receiver: only its last segment has type arguments. -/
def receiverType (start : Span) (arguments : List TypeArgument) (first : Ident) (others : List Ident) :
    UserType :=
  let bare (i : Ident) : TypeSegment := ⟨i, [], start.merge i.span⟩
  let last := others.getLastD first
  ⟨(first :: others).dropLast.map bare, { bare last with arguments }⟩

/-- Reads the receiver of a class literal. -/
def receiver : TokenParser Expr := do
  let start ← nextSpan
  let first ← identifier
  let others ← manyWhile isAtDotIdentifier dotIdentifier
  if ← test (·.isAt .less) then
    let arguments ← typeArguments type
    let user := receiverType start arguments first others
    return .type ⟨.user user, [], user.render, ← spanFrom start⟩
  else match others with
    | [] => return .name first
    | _ :: _ => return .path ⟨first :: others, ← spanFrom start⟩

/-- Reads a class literal. -/
def classLiteral : TokenParser Expr := do
  let start ← nextSpan
  let receiver ← receiver type
  let _ ← expect .colonColon
  let _ ← expect .class
  return .classLiteral receiver (← spanFrom start)

/-- Reads a collection literal. -/
def collection : TokenParser Expr := do
  let mark ← expect .leftBracket
  let elements ← commaList .rightBracket value
  let _ ← expect .rightBracket
  return .collection elements (← spanFrom mark.span)

/-- The error for a brace that closes nothing in an argument list. -/
def strayBrace (found : Token) : ParseError :=
  ⟨.mismatchedDelimiter, found.span, "unexpected '\x7d' in argument list"⟩

/-- The error for a token that begins no expression. -/
def expectedExpression (found : Token) : ParseError :=
  ⟨.unexpectedToken, found.span, "expected expression, found " ++ found.describe⟩

/-- Reads an expression as text, up to the end of the argument. -/
def otherValue : TokenParser Expr := do
  let start ← here
  skipUntil fun c => isAtArgumentEnd c || c.isAt .rightBrace
  if ← test (·.isAt .rightBrace) then failAtNext strayBrace
  if ← test (fun c => !(c.size < start.size)) then failAtNext expectedExpression
  return .other (← textSince start) (← spanFrom start.peek.span)

/-- Reads a collection literal, or a class literal if one comes next. -/
def structuredValue : TokenParser (Option Expr) := do
  if ← test (·.isAt .leftBracket) then return some (← collection value)
  else attempt (classLiteral type)

/-- Reads the value of an argument, given parsers for the types and the values inside it. -/
def valueWith : TokenParser Expr := do
  let start ← here
  let structured ← structuredValue type value
  match structured, isAtArgumentEnd (← here) with
  | some e, true => return e
  | _, _ =>
    goBack start
    otherValue

end Constructs

/-! ## The knot -/

mutual

/-- Reads a type. -/
def type (c : Cursor) : EStateM.Result ParseError Cursor TypeRef :=
  typeWith (below c fun c' _ => type c') (below c fun c' _ => value c') c
termination_by c.size

/-- Reads the value of an annotation argument. -/
def value (c : Cursor) : EStateM.Result ParseError Cursor Expr :=
  valueWith (below c fun c' _ => type c') (below c fun c' _ => value c') c
termination_by c.size

end

/-- Reads a named type. -/
def userType : TokenParser UserType := userTypeWith type

/-- Reads one annotation. -/
def annotationUse : TokenParser AnnotationUse := annotationWith type value

/-- Reads the annotations that come next. -/
def annotations : TokenParser (List AnnotationUse) := annotationsWith type value

/-- Reads the arguments of an annotation in parentheses. -/
def valueArguments : TokenParser (List Argument) := valueArgumentsWith value

end TokenParser

end ServiceCatalog
