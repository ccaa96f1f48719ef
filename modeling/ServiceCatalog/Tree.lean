import ServiceCatalog.Name.Dotted
import ServiceCatalog.Span

/-!
# What is kept of a source file

A source file is read for the classes it declares and for what is written next to them: annotations with
their arguments, supertypes, type aliases and imports.  Functions, properties and initializers leave no
trace in the tree.

Types and annotations contain each other, an annotation through the type arguments of its name and a type
through the annotations before it, so their nodes are one mutual family.

* `UserType.render`, `TypeRef.text`: the written form of a type, from its parts and from its tokens.
* `Expr.text`: the written form of an annotation argument.
* `ClassDecl.levels`: the classes of a forest, level by level.
-/

namespace ServiceCatalog

/-- An identifier and its place. -/
structure Ident where
  name : String
  span : Span
  deriving DecidableEq, Repr, Inhabited

/-- A chain of identifiers with dots between them. -/
structure Path where
  segments : List Ident
  span : Span
  deriving DecidableEq, Repr, Inhabited

namespace Path

/-- The names of the segments. -/
def names (p : Path) : List String := p.segments.map Ident.name

/-- The dotted text. -/
def text (p : Path) : String := Text.joined '.' p.names

/-- The path as a dotted name. -/
def dotted (p : Path) : DottedName := ⟨p.names⟩

/-- The last segment. -/
def shortName (p : Path) : String := p.names.getLastD ""

end Path

/-! ## Types, annotations and their arguments -/

mutual

/-- A segment of a named type with its own type arguments.  Its span reaches back to the first segment
of the type. -/
structure TypeSegment where
  name : Ident
  arguments : List TypeArgument
  span : Span

/-- A type argument: anything, or a type, whose variance is not kept. -/
inductive TypeArgument where
  | star (span : Span)
  | type (t : TypeRef)

/-- A named type: the segment it ends in and those that qualify it. -/
structure UserType where
  qualifier : List TypeSegment
  last : TypeSegment

/-- The shapes of types. -/
inductive TypeElement where
  | user (u : UserType)
  | nullable (e : TypeElement)
  | function (span : Span)

/-- A type as it is written, with the annotations before it and the text of its tokens. -/
structure TypeRef where
  element : TypeElement
  annotations : List AnnotationUse
  text : String
  span : Span

/-- An annotation before a declaration or a type, with a target like `file` in `@file:Name`. -/
structure AnnotationUse where
  useSite : Option Ident
  type : TypeRef
  arguments : List Argument
  span : Span

/-- An argument of an annotation. -/
structure Argument where
  name : Option Ident
  isSpread : Bool
  value : Expr
  span : Span

/-- The value of an argument.  Names occur only as receivers of class literals; an expression that is
neither a class literal nor a collection literal is kept as text. -/
inductive Expr where
  | name (i : Ident)
  | path (p : Path)
  | type (t : TypeRef)
  | classLiteral (receiver : Expr) (span : Span)
  | collection (elements : List Expr) (span : Span)
  | other (text : String) (span : Span)

end

namespace UserType

/-- All segments, outermost first. -/
def segments (u : UserType) : List TypeSegment := u.qualifier ++ [u.last]

/-- The names of the segments. -/
def names (u : UserType) : List String := u.segments.map fun s => s.name.name

/-- The dotted text without type arguments. -/
def pathText (u : UserType) : String := Text.joined '.' u.names

/-- Whether the last segment has type arguments. -/
def isGeneric (u : UserType) : Bool := !u.last.arguments.isEmpty

/-- The span of the whole type. -/
def span (u : UserType) : Span := u.last.span

end UserType

/-- The written form of a type argument. -/
def TypeArgument.text : TypeArgument → String
  | star _ => "*"
  | type t => t.text

/-- The written form of a segment, with its type arguments. -/
def TypeSegment.render (s : TypeSegment) : String :=
  if s.arguments.isEmpty then s.name.name
  else s.name.name ++ "<" ++ String.intercalate ", " (s.arguments.map TypeArgument.text) ++ ">"

/-- The written form of a named type, with the type arguments of every segment. -/
def UserType.render (u : UserType) : String := Text.joined '.' (u.segments.map TypeSegment.render)

/-- The named type that an element is about, looking through nullability. -/
def TypeElement.userType? : TypeElement → Option UserType
  | user u => some u
  | nullable e => e.userType?
  | function _ => none

/-- The named type that a type is about. -/
def TypeRef.userType? (t : TypeRef) : Option UserType := t.element.userType?

namespace AnnotationUse

/-- The last segment of the annotation's name. -/
def shortName (a : AnnotationUse) : String :=
  match a.type.userType? with
  | some u => u.last.name.name
  | none => ""

/-- The annotation's name as written, without type arguments. -/
def writtenName (a : AnnotationUse) : String :=
  match a.type.userType? with
  | some u => u.pathText
  | none => ""

end AnnotationUse

namespace Expr

/-- The place of the expression. -/
def span : Expr → Span
  | name i => i.span
  | path p => p.span
  | type t => t.span
  | classLiteral _ s => s
  | collection _ s => s
  | other _ s => s

mutual

/-- The written form of the expression. -/
def text : Expr → String
  | name i => i.name
  | path p => p.text
  | type t => t.text
  | classLiteral receiver _ => receiver.text ++ "::class"
  | collection elements _ => "[" ++ String.intercalate ", " (texts elements) ++ "]"
  | other t _ => t

/-- The written forms of several expressions. -/
def texts : List Expr → List String
  | [] => []
  | e :: es => e.text :: texts es

end

theorem texts_eq_map (es : List Expr) : texts es = es.map text := by
  induction es with
  | nil => simp [texts]
  | cons e es ih => simp [texts, ih]

end Expr

/-! ## Declarations -/

/-- An import: of one name, possibly under an alias, or of everything in a package. -/
structure Import where
  path : Path
  isWildcard : Bool
  localName : Option Ident
  span : Span
  deriving DecidableEq, Repr

namespace Import

/-- The imported name; the package, if everything in it is imported. -/
def target (i : Import) : DottedName := i.path.dotted

/-- The name that the import introduces: its alias, or else the last segment of its path.  An import of
everything introduces none. -/
def introduced? (i : Import) : Option String :=
  if i.isWildcard then none
  else match i.localName with
    | some name => some name.name
    | none => some i.path.shortName

end Import

/-- The kinds of classes. -/
inductive ClassKind where
  | «class»
  | interface
  | object
  | companionObject
  | enumClass
  | annotationClass
  deriving DecidableEq, Repr, Inhabited

namespace ClassKind

/-- Whether classes of the kind have no instances of their own. -/
def isInterface : ClassKind → Bool
  | interface | annotationClass => true
  | _ => false

/-- Whether the only instance is declared along with the class. -/
def isObject : ClassKind → Bool
  | object | companionObject => true
  | _ => false

end ClassKind

/-- A declared class with the classes declared in its body. -/
structure ClassDecl where
  kind : ClassKind
  name : Ident
  annotations : List AnnotationUse
  supertypes : List TypeRef
  declarations : List ClassDecl
  span : Span

/-- A type alias. -/
structure TypeAlias where
  name : Ident
  annotations : List AnnotationUse
  target : TypeRef
  span : Span

namespace ClassDecl

/-- The number of classes in a forest. -/
def forestSize : List ClassDecl → Nat
  | [] => 0
  | ⟨_, _, _, _, inner, _⟩ :: ds => 1 + forestSize inner + forestSize ds

/-- The classes declared directly in the bodies of a level, in source order. -/
def nextLevel (level : List ClassDecl) : List ClassDecl := level.flatMap declarations

theorem forestSize_append (as bs : List ClassDecl) :
    forestSize (as ++ bs) = forestSize as + forestSize bs := by
  induction as with
  | nil => simp [forestSize]
  | cons a as ih => cases a; simp [forestSize, ih]; omega

/-- Going down a level loses the level's own classes and no others. -/
theorem forestSize_nextLevel (level : List ClassDecl) :
    forestSize (nextLevel level) + level.length = forestSize level := by
  induction level with
  | nil => simp [nextLevel, forestSize]
  | cons a as ih =>
    cases a
    simp only [nextLevel, List.flatMap_cons, forestSize_append, forestSize, List.length_cons] at ih ⊢
    omega

/-- All classes of a forest, level by level. -/
def levels (level : List ClassDecl) : List ClassDecl :=
  match level with
  | [] => []
  | d :: ds => (d :: ds) ++ levels (nextLevel (d :: ds))
termination_by forestSize level
decreasing_by
  have := forestSize_nextLevel (d :: ds)
  simp only [List.length_cons] at this
  omega

end ClassDecl

/-- A source file. -/
structure SourceFile where
  name : String
  fileAnnotations : List AnnotationUse
  package : Option Path
  imports : List Import
  declarations : List ClassDecl
  typeAliases : List TypeAlias
  span : Span

namespace SourceFile

/-- The package of the file; the root package if it names none. -/
def packageName (f : SourceFile) : DottedName :=
  match f.package with
  | some path => path.dotted
  | none => .root

/-- Every class of the file, outer ones before those nested in them. -/
def allDeclarations (f : SourceFile) : List ClassDecl := ClassDecl.levels f.declarations

end SourceFile

end ServiceCatalog
