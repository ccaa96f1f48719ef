import ServiceCatalog.Parse.Declaration

/-!
# Trees without places

Two source files that differ in their layout only are read as trees that differ in their spans only.  `unplaced`
takes all spans out of a tree, so that such trees become equal.

What is computed from a tree without a look at its spans, such as the written form of a named type, is the same for
the tree without places.
-/

namespace ServiceCatalog

/-- What the parser answers, with places in it or without. -/
class HasPlaces (α : Type) where
  /-- The same without places. -/
  unplaced : α → α

export HasPlaces (unplaced)

instance : HasPlaces Unit := ⟨id⟩

instance : HasPlaces Bool := ⟨id⟩

instance : HasPlaces String := ⟨id⟩

instance : HasPlaces Span := ⟨fun _ => default⟩

instance : HasPlaces ClassKind := ⟨id⟩

instance {α : Type} [HasPlaces α] : HasPlaces (List α) := ⟨List.map unplaced⟩

instance {α : Type} [HasPlaces α] : HasPlaces (Option α) := ⟨Option.map unplaced⟩

instance {α β : Type} [HasPlaces α] [HasPlaces β] : HasPlaces (α × β) := ⟨Prod.map unplaced unplaced⟩

/-- Of a token, what it is and how it is written. -/
instance : HasPlaces Token := ⟨fun t => ⟨t.kind, t.lexeme, default, false⟩⟩

instance : HasPlaces Ident := ⟨fun i => ⟨i.name, default⟩⟩

instance : HasPlaces Path := ⟨fun p => ⟨unplaced p.segments, default⟩⟩

/-! ## Types and annotations -/

mutual

/-- A segment without places. -/
def TypeSegment.bare : TypeSegment → TypeSegment
  | ⟨name, arguments, _⟩ => ⟨unplaced name, arguments.map fun a => a.bare, default⟩

/-- A type argument without places. -/
def TypeArgument.bare : TypeArgument → TypeArgument
  | .star _ => .star default
  | .type t => .type t.bare

/-- A named type without places. -/
def UserType.bare : UserType → UserType
  | ⟨qualifier, last⟩ => ⟨qualifier.map fun s => s.bare, last.bare⟩

/-- The shape of a type without places. -/
def TypeElement.bare : TypeElement → TypeElement
  | .user u => .user u.bare
  | .nullable e => .nullable e.bare
  | .function _ => .function default

/-- A type without places. -/
def TypeRef.bare : TypeRef → TypeRef
  | ⟨element, annotations, text, _⟩ => ⟨element.bare, annotations.map fun a => a.bare, text, default⟩

/-- An annotation without places. -/
def AnnotationUse.bare : AnnotationUse → AnnotationUse
  | ⟨useSite, type, arguments, _⟩ => ⟨unplaced useSite, type.bare, arguments.map fun a => a.bare, default⟩

/-- An argument without places. -/
def Argument.bare : Argument → Argument
  | ⟨name, isSpread, value, _⟩ => ⟨unplaced name, isSpread, value.bare, default⟩

/-- A value without places. -/
def Expr.bare : Expr → Expr
  | .name i => .name (unplaced i)
  | .path p => .path (unplaced p)
  | .type t => .type t.bare
  | .classLiteral receiver _ => .classLiteral receiver.bare default
  | .collection elements _ => .collection (elements.map fun e => e.bare) default
  | .other text _ => .other text default

end

instance : HasPlaces TypeSegment := ⟨TypeSegment.bare⟩

instance : HasPlaces TypeArgument := ⟨TypeArgument.bare⟩

instance : HasPlaces UserType := ⟨UserType.bare⟩

instance : HasPlaces TypeElement := ⟨TypeElement.bare⟩

instance : HasPlaces TypeRef := ⟨TypeRef.bare⟩

instance : HasPlaces AnnotationUse := ⟨AnnotationUse.bare⟩

instance : HasPlaces Argument := ⟨Argument.bare⟩

instance : HasPlaces Expr := ⟨Expr.bare⟩

/-! ## Declarations and files -/

instance : HasPlaces Import :=
  ⟨fun i => ⟨unplaced i.path, i.isWildcard, unplaced i.localName, default⟩⟩

/-- A class without places, and without those of the classes inside. -/
def ClassDecl.bare : ClassDecl → ClassDecl
  | ⟨kind, name, annotations, supertypes, declarations, _⟩ =>
    ⟨kind, unplaced name, unplaced annotations, unplaced supertypes, declarations.map fun d => d.bare, default⟩

instance : HasPlaces ClassDecl := ⟨ClassDecl.bare⟩

instance : HasPlaces TypeAlias :=
  ⟨fun a => ⟨unplaced a.name, unplaced a.annotations, unplaced a.target, default⟩⟩

instance : HasPlaces Member :=
  ⟨fun
    | .class d => .class (unplaced d)
    | .typeAlias a => .typeAlias (unplaced a)⟩

instance : HasPlaces TokenParser.Preamble := ⟨fun p => ⟨unplaced p.annotations, p.modifiers⟩⟩

instance : HasPlaces SourceFile :=
  ⟨fun f => ⟨f.name, unplaced f.fileAnnotations, unplaced f.package, unplaced f.imports, unplaced f.declarations,
    unplaced f.typeAliases, default⟩⟩

end ServiceCatalog
