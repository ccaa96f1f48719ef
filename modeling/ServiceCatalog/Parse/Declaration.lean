import ServiceCatalog.Parse.Member
import ServiceCatalog.Parse.Type

/-!
# Files and declarations

A file is a header (annotations of the file, its package, its imports) and members; the body of a class is
members again.  Classes and type aliases are kept, everything else is passed.

Reading a header or the head of a class can fail, and then the caller decides.  Reading members cannot:
an error is recorded, and the reading goes on where the next member begins.  So there are two layers, the
token parsers on a cursor alone and the functions on a `Parser`, which is a cursor with the errors recorded
so far.
-/

namespace ServiceCatalog

/-- A cursor in a file and the errors recorded so far. -/
structure Parser where
  cursor : Cursor
  errors : List ParseError
  deriving Inhabited

namespace TokenParser

/-! ## Headers -/

/-- Reads identifiers with dots between them. -/
def path : TokenParser Path := do
  let start ← nextSpan
  let first ← identifier
  let others ← manyWhile isAtDotIdentifier dotIdentifier
  return ⟨first :: others, ← spanFrom start⟩

/-- Reads the package header. -/
def packageHeader : TokenParser Path := do
  let _ ← expect .package
  let path ← path
  let _ ← eat .semicolon
  return path

/-- Reads the alias of an import, if it has one. -/
def importAlias : TokenParser (Option Ident) := do
  if ← eat .as then some <$> identifier else return none

/-- Reads an import. -/
def importHeader : TokenParser Import := do
  let mark ← expect .import
  let start ← nextSpan
  let first ← identifier
  let others ← manyWhile (fun c => c.isAt .dot && c.secondKind != .star) dotIdentifier
  let isWildcard ← eat .dot
  if isWildcard then
    let _ ← next
  let path : Path := ⟨first :: others, ← spanFrom start⟩
  let localName ← if isWildcard then pure none else importAlias
  let _ ← eat .semicolon
  return ⟨path, isWildcard, localName, ← spanFrom mark.span⟩

/-! ## Heads of declarations -/

/-- Whether a modifier comes next.  A name that is assigned to or given a type is none. -/
def isAtModifier (c : Cursor) : Bool :=
  c.isAt .identifier && isModifier c.peek.lexeme && c.secondKind != .equal && c.secondKind != .colon

/-- What stands before the keyword of a declaration. -/
structure Preamble where
  annotations : List AnnotationUse
  modifiers : List String

/-- Reads annotations, or else a modifier. -/
def preambleItem : TokenParser Preamble := do
  if ← test (·.isAt .at) then return ⟨← annotations, []⟩
  else return ⟨[], [(← next).lexeme]⟩

/-- Reads the annotations and modifiers of a member. -/
def preamble : TokenParser Preamble := do
  let items ← manyWhile (fun c => c.isAt .at || isAtModifier c) preambleItem
  return ⟨items.flatMap Preamble.annotations, items.flatMap Preamble.modifiers⟩

/-- The kind of the class that begins with the next token; none, if no class does. -/
def classKind? (modifiers : List String) (c : Cursor) : Option ClassKind :=
  match c.kind with
  | .class =>
    if modifiers.contains "enum" then some .enumClass
    else if modifiers.contains "annotation" then some .annotationClass
    else some .class
  | .interface => some .interface
  | .fun => if c.secondKind = .interface then some .interface else none
  | .object =>
    if modifiers.contains "companion" then some .companionObject
    else if c.secondKind = .identifier then some .object
    else none
  | _ => none

/-- Reads the keyword of a class and its name.  A companion object may go without one. -/
def classNaming (kind : ClassKind) : TokenParser Ident := do
  let _ ← eat .fun
  let keyword ← next
  if kind = .companionObject && !(← test (·.isAt .identifier)) then
    return ⟨"Companion", keyword.span⟩
  else identifier

/-- Whether what comes next may stand before the keyword of a constructor: an annotation on the same line,
or a modifier. -/
def isAtConstructorModifier (c : Cursor) : Bool :=
  (c.isAt .at && !c.peek.newlineBefore) || (c.isAt .identifier && isModifier c.peek.lexeme)

/-- Passes annotations, or else a modifier. -/
def skipConstructorModifier : TokenParser Unit := do
  if ← test (·.isAt .at) then
    let _ ← annotations
  else
    let _ ← next

/-- Passes a primary constructor.  Modifiers that no constructor follows belong to the next member. -/
def skipConstructor : TokenParser Unit := do
  let start ← here
  let _ ← manyWhile isAtConstructorModifier skipConstructorModifier
  let hasKeyword ← eatWord "constructor"
  if ← test (fun c => c.isAt .leftParen && (hasKeyword || !c.peek.newlineBefore)) then skipGroup
  else if !hasKeyword then goBack start

/-- Where a delegation or a list of constraints must end. -/
def endsClause (c : Cursor) : Bool := c.isAt .leftBrace || c.isAt .rightBrace || c.isAtMember

/-- Reads a supertype and passes its constructor call or its delegation. -/
def supertype : TokenParser TypeRef := do
  let t ← type
  if ← test isAtArguments then skipGroup
  if ← eatWord "by" then skipUntil fun c => c.isAt .comma || endsClause c
  return t

/-- Reads the supertypes of a class. -/
def supertypes : TokenParser (List TypeRef) := do
  let first ← supertype
  let others ← manyWhile (·.isAt .comma) (do let _ ← next; supertype)
  return first :: others

/-- Reads a class from its keyword up to its body: its name and its supertypes. -/
def classHead (kind : ClassKind) : TokenParser (Ident × List TypeRef) := do
  let name ← classNaming kind
  if ← test (·.isAt .less) then skipAngles
  skipConstructor
  let supertypes ← if ← eat .colon then supertypes else pure []
  if ← test (·.isAtWord "where") then skipUntil endsClause
  return (name, supertypes)

/-- Reads a type alias from its keyword onwards. -/
def typeAlias (start : Span) (annotations : List AnnotationUse) : TokenParser TypeAlias := do
  let _ ← expect .typealias
  let name ← identifier
  if ← test (·.isAt .less) then skipAngles
  if ← test (fun c => !c.isAt .equal) then failExpecting TokenKind.equal.description
  let _ ← next
  let target ← type
  return ⟨name, annotations, target, ← spanFrom start⟩

end TokenParser

/-! ## Members -/

/-- A member that is kept. -/
inductive Member where
  | «class» (d : ClassDecl)
  | typeAlias (a : TypeAlias)

namespace Member

/-- The class, if the member is one. -/
def class? : Member → Option ClassDecl
  | «class» d => some d
  | typeAlias _ => none

/-- The type alias, if the member is one. -/
def typeAlias? : Member → Option TypeAlias
  | «class» _ => none
  | typeAlias a => some a

end Member

namespace Parser

/-- The parser at the beginning of a source text.  Pieces of the text that are no tokens are errors. -/
def ofSource (source : String) : Parser :=
  let ls := lexemes source
  ⟨.ofLexemes ls, (ls.filterMap Lexeme.error?).map fun e => ⟨.invalidSyntax, e.span, e.message⟩⟩

/-- Records an error. -/
def record (p : Parser) (e : ParseError) : Parser := ⟨p.cursor, p.errors ++ [e]⟩

/-- Passes the rest of a member and records the errors in it. -/
def passMember (p : Parser) : Parser :=
  let (errors, stop) := skipMember p.cursor
  ⟨stop, p.errors ++ errors⟩

/-- Records an error and goes on where the next member begins. -/
def recover (p : Parser) (e : ParseError) : Parser := (p.record e).passMember

/-- A parser of a member, which may fail and may record errors. -/
abbrev MemberParser (α : Type) := EStateM ParseError Parser α

/-- A token parser as a parser that records nothing. -/
def reading {α : Type} (t : TokenParser α) : MemberParser α := fun p =>
  match t p.cursor with
  | .ok a c => .ok a ⟨c, p.errors⟩
  | .error e c => .error e ⟨c, p.errors⟩

/-- A reader of members as a parser that does not fail. -/
def always {α : Type} (f : Parser → α × Parser) : MemberParser α := fun p => .ok (f p).1 (f p).2

section Body

variable (body : Parser → List Member × Parser)

/-- Reads the classes in the body of a class, if it has one. -/
def classBody : MemberParser (List ClassDecl) := do
  if ← reading (TokenParser.test (·.isAt .leftBrace)) then
    let _ ← reading TokenParser.next
    let inner ← always body
    let _ ← reading (TokenParser.expect .rightBrace)
    return inner.filterMap Member.class?
  else return []

/-- Reads a class from its keyword onwards. -/
def classFrom (start : Span) (kind : ClassKind) (annotations : List AnnotationUse) :
    MemberParser ClassDecl := do
  let (name, supertypes) ← reading (TokenParser.classHead kind)
  let declarations ← classBody body
  return ⟨kind, name, annotations, supertypes, declarations, ← reading (TokenParser.spanFrom start)⟩

/-- Reads one member; none, if it is not kept. -/
def member : MemberParser (Option Member) := do
  let start ← reading TokenParser.nextSpan
  let preamble ← reading TokenParser.preamble
  let here ← reading TokenParser.here
  if here.isAt .typealias then
    return some (.typeAlias (← reading (TokenParser.typeAlias start preamble.annotations)))
  else match TokenParser.classKind? preamble.modifiers here with
    | some kind => return some (.class (← classFrom body start kind preamble.annotations))
    | none =>
      always fun p => ((), p.passMember)
      return none

/-- The error for a brace that closes nothing. -/
def strayBrace (t : Token) : ParseError := ⟨.mismatchedDelimiter, t.span, "unexpected '\x7d' at top level"⟩

/-- Reads what comes next among members: a stray mark, or a member, whose error is recorded. -/
def memberStep (p : Parser) : Option Member × Parser :=
  if p.cursor.isAt .rightBrace then (none, ⟨p.cursor.advance, (p.record (strayBrace p.cursor.peek)).errors⟩)
  else if p.cursor.isAt .semicolon then (none, ⟨p.cursor.advance, p.errors⟩)
  else match member body p with
    | .ok m p' => (m, p')
    | .error e p' => (none, p'.recover e)

end Body

/-- Whether a list of members ends here: with the file, or with the brace that closes their body. -/
def endsMembers (inBody : Bool) (c : Cursor) : Bool := c.isAtEnd || (inBody && c.isAt .rightBrace)

/-- Reads members up to the end of their body or of the file. -/
def members (inBody : Bool) (p : Parser) : List Member × Parser :=
  if endsMembers inBody p.cursor then ([], p)
  else
    let (found, p') := memberStep
      (fun q => if q.cursor.size < p.cursor.size then members true q else ([], q)) p
    if p'.cursor.size < p.cursor.size then
      let (others, p'') := members inBody p'
      (found.toList ++ others, p'')
    else (found.toList, p')
termination_by p.cursor.size

/-! ## Files -/

/-- Reads headers of a kind while a test of the cursor holds.  The error of a header is recorded. -/
def headers {α : Type} (p : Cursor → Bool) (header : TokenParser α) (here : Parser) : List α × Parser :=
  if p here.cursor then
    let (found, p') : Option α × Parser := match reading header here with
      | .ok a p' => (some a, p')
      | .error e p' => (none, p'.recover e)
    if p'.cursor.size < here.cursor.size then
      let (others, p'') := headers p header p'
      (found.toList ++ others, p'')
    else (found.toList, p')
  else ([], here)
termination_by here.cursor.size

/-- Whether an annotation of the file comes next. -/
def isAtFileAnnotation (c : Cursor) : Bool :=
  c.isAt .at && (c.peekNth 1).lexeme == "file" && (c.peekNth 2).kind == .colon

/-- Reads the package header, if there is one. -/
def package? (p : Parser) : Option Path × Parser :=
  if p.cursor.isAt .package then
    match reading TokenParser.packageHeader p with
    | .ok path p' => (some path, p')
    | .error e p' => (none, p'.recover e)
  else (none, p)

/-- Reads a whole file. -/
def file (name : String) (p : Parser) : SourceFile × Parser :=
  let (fileAnnotations, p₁) := headers isAtFileAnnotation TokenParser.annotationUse p
  let (package, p₂) := package? p₁
  let (imports, p₃) := headers (·.isAt .import) TokenParser.importHeader p₂
  let (found, p₄) := members false p₃
  (⟨name, fileAnnotations, package, imports, found.filterMap Member.class?, found.filterMap Member.typeAlias?,
    p₄.cursor.spanFrom p.cursor.peek.span⟩, p₄)

end Parser

/-- The tree of a source file, or all errors in it. -/
def SourceFile.parse (name source : String) : Except (List ParseError) SourceFile :=
  let (file, p) := (Parser.ofSource source).file name
  if p.errors.isEmpty then .ok file else .error p.errors

end ServiceCatalog
