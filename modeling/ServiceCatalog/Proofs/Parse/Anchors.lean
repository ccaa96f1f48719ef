import ServiceCatalog.Proofs.Parse.DeclarationPlaces
import ServiceCatalog.Proofs.Parse.Yields

/-!
# The nodes of a tree and where they are read

The tree of a source file has nodes of many sorts.  Here they are one sort, with the span of each and its parts, so that
what holds of all spans of a tree can be said at once, and shown from the parts to the whole.

A node is anchored in a file if its span begins with a token of the file and it is read at this token; what that means
depends on its sort (`Node.IsReadAt`).  A construct is built at a place if its span begins there and its parts are
anchored (`Node.IsBuiltAt`), which is what its parser knows of it before it is known to be what is read there.
-/

namespace ServiceCatalog

open TokenParser

/-- A node of the tree of a source file. -/
inductive Node where
  | ident (i : Ident)
  | path (p : Path)
  | segment (s : TypeSegment)
  | typeArgument (a : TypeArgument)
  | element (e : TypeElement)
  | type (t : TypeRef)
  | annotationUse (a : AnnotationUse)
  | argument (a : Argument)
  | expr (e : Expr)
  | «import» (i : Import)
  | «class» (d : ClassDecl)
  | typeAlias (a : TypeAlias)
  | file (f : SourceFile)

namespace Node

/-- The span of a node.  The shapes of types have none of their own, except function types, nor have type arguments
that are types. -/
def span? : Node → Option Span
  | ident i => some i.span
  | path p => some p.span
  | segment s => some s.span
  | typeArgument (.star span) => some span
  | typeArgument (.type _) => none
  | element (.function span) => some span
  | element (.user _) => none
  | element (.nullable _) => none
  | type t => some t.span
  | annotationUse a => some a.span
  | argument a => some a.span
  | expr e => some e.span
  | «import» i => some i.span
  | «class» d => some d.span
  | typeAlias a => some a.span
  | file f => some f.span

/-- The nodes directly inside a node. -/
def parts : Node → List Node
  | ident _ => []
  | path p => p.segments.map ident
  | segment s => ident s.name :: s.arguments.map typeArgument
  | typeArgument (.star _) => []
  | typeArgument (.type t) => [type t]
  | element (.user u) => u.segments.map segment
  | element (.nullable e) => [element e]
  | element (.function _) => []
  | type t => element t.element :: t.annotations.map annotationUse
  | annotationUse a => type a.type :: (a.useSite.toList.map ident ++ a.arguments.map argument)
  | argument a => expr a.value :: a.name.toList.map ident
  | expr (.name i) => [ident i]
  | expr (.path p) => [path p]
  | expr (.type t) => [type t]
  | expr (.classLiteral receiver _) => [expr receiver]
  | expr (.collection elements _) => elements.map expr
  | expr (.other _ _) => []
  | «import» i => path i.path :: i.localName.toList.map ident
  | «class» d => ident d.name ::
      (d.annotations.map annotationUse ++ d.supertypes.map type ++ d.declarations.map «class»)
  | typeAlias a => ident a.name :: type a.target :: a.annotations.map annotationUse
  | file f => f.fileAnnotations.map annotationUse ++ f.package.toList.map path ++ f.imports.map «import» ++
      f.declarations.map «class» ++ f.typeAliases.map typeAlias

/-- Whether a node is the other one or inside of it, at any depth. -/
inductive Holds : Node → Node → Prop
  | self (n : Node) : Holds n n
  | part {n m k : Node} (hm : m ∈ n.parts) (hk : Holds m k) : Holds n k

/-- Whether a declaration may begin at a place: with an annotation, a modifier or its keyword. -/
def IsAtDeclaration (c : Cursor) : Prop := c.kind = .at ∨ isAtModifier c = true ∨ c.kind ∈ keptKinds

/-- Whether a node is what is read at a place.

A type is read as such, as the name of an annotation, or as the receiver of a class literal; an expression as the value
of an argument or as such a receiver; an annotation at its mark, alone or in a list; a declaration from its first
annotation or modifier on, or from its keyword on if it has none. -/
def IsReadAt (c : Cursor) : Node → Prop
  | ident i => i.span = c.peek.span
  | type t => (∃ c', TokenParser.type c = .ok t c') ∨ (∃ u c', userType c = .ok u c' ∧ t.element = .user u) ∨
      ∃ c', receiver TokenParser.type c = .ok (.type t) c'
  | annotationUse a => c.kind = .at ∧ ((∃ c', TokenParser.annotationUse c = .ok a c') ∨
      ∃ as c', annotationGroup TokenParser.type value c = .ok as c' ∧ a ∈ as)
  | expr e => (∃ c', value c = .ok e c') ∨ ∃ c', receiver TokenParser.type c = .ok e c'
  | «import» i => c.kind = .import ∧ ∃ c', importHeader c = .ok i c'
  | «class» d => IsAtDeclaration c ∧ ∃ c', ReadsHead c d.annotations d.kind d.name d.supertypes c'
  | typeAlias a => IsAtDeclaration c ∧ ∃ before c₁ c₂, preamble c = .ok before c₁ ∧ c₁.kind = .typealias ∧
      TokenParser.typeAlias c.peek.span before.annotations c₁ = .ok a c₂
  | _ => True

variable {b c : Cursor} {n : Node}

/-- Whether the span of a node begins with a token of the file that begins at a place, where the node is read. -/
def HasAnchor (b : Cursor) (n : Node) : Prop :=
  ∀ s, n.span? = some s → ∃ c, b.Precedes c ∧ s.start = c.peek.span.start ∧ n.IsReadAt c

/-- Whether the spans of a node and of all nodes in it begin with tokens of the file. -/
def Anchored (b : Cursor) (n : Node) : Prop := ∀ m, n.Holds m → m.HasAnchor b

/-- Whether the span of a node begins at a place of the file, and its parts are anchored. -/
structure IsBuiltAt (b c : Cursor) (n : Node) : Prop where
  begins : ∀ s, n.span? = some s → s.start = c.peek.span.start
  parts : ∀ m ∈ n.parts, m.Anchored b

theorem Anchored.of_parts (h : n.HasAnchor b) (hparts : ∀ m ∈ n.parts, m.Anchored b) : n.Anchored b := by
  rintro k (_ | ⟨hm, hk⟩)
  · exact h
  · exact hparts _ hm k hk

/-- A node that is read where it is built is anchored. -/
theorem IsBuiltAt.anchored (h : n.IsBuiltAt b c) (hc : b.Precedes c) (hread : n.IsReadAt c) : n.Anchored b :=
  .of_parts (fun s hs => ⟨c, hc, h.begins s hs, hread⟩) h.parts

theorem anchored_ident {i : Ident} (hc : b.Precedes c) (hi : i.span = c.peek.span) : (ident i).Anchored b :=
  IsBuiltAt.anchored ⟨fun _ hs => Option.some.inj hs ▸ congrArg _ hi, nofun⟩ hc hi

theorem anchored_segment {s : TypeSegment} (hc : b.Precedes c) (hspan : s.span.start = c.peek.span.start)
    (hname : (ident s.name).Anchored b) (harguments : ∀ a ∈ s.arguments, (typeArgument a).Anchored b) :
    (segment s).Anchored b := by
  refine IsBuiltAt.anchored ⟨fun s' hs => Option.some.inj hs ▸ hspan, ?_⟩ hc trivial
  simpa only [parts, List.forall_mem_cons, List.forall_mem_map] using ⟨hname, harguments⟩

theorem anchored_userType {u : UserType} (h : ∀ s ∈ u.segments, (segment s).Anchored b) :
    (element (.user u)).Anchored b :=
  .of_parts nofun (List.forall_mem_map.mpr h)

theorem anchored_nullable {e : TypeElement} (h : (element e).Anchored b) (marks : Nat) :
    (element (nullable marks e)).Anchored b := by
  induction marks generalizing e with
  | zero => exact h
  | succ marks ih => exact ih (.of_parts nofun (List.forall_mem_singleton.mpr h))

end Node

end ServiceCatalog
