import ServiceCatalog.Tree

/-!
# References

The ways in which a source file can mention a class: a name or a dotted path before `::class`, a named
type, a type as it is written, a nullable type, an annotation.  A collection of class literals is no
mention of a class but can stand where one is expected, so it is a reference too, one that never resolves.
-/

namespace ServiceCatalog

/-- A mention of a class. -/
inductive Reference where
  | name (i : Ident)
  | path (p : Path)
  | userType (u : UserType)
  | typeRef (t : TypeRef)
  | nullable (e : TypeElement) (span : Span)
  | annotationUse (a : AnnotationUse)
  | collection (elements : List Expr) (span : Span)

namespace Reference

/-- What the argument of an annotation refers to; nothing, unless it is a class literal or a collection. -/
def ofArgument? : Expr → Option Reference
  | .classLiteral (.name i) _ => some (name i)
  | .classLiteral (.path p) _ => some (path p)
  | .classLiteral (.type t) _ => some (typeRef t)
  | .collection elements span => some (collection elements span)
  | _ => none

/-- The reference as it is written. -/
def text : Reference → String
  | name i => i.name
  | path p => p.text
  | userType u => u.render
  | typeRef t => t.text
  | nullable e _ =>
    match e.userType? with
    | some u => u.render ++ "?"
    | none => "?"
  | annotationUse a => a.type.text
  | collection elements span => (Expr.collection elements span).text

/-- The place of the reference. -/
def span : Reference → Span
  | name i => i.span
  | path p => p.span
  | userType u => u.span
  | typeRef t => t.span
  | nullable _ s => s
  | annotationUse a => a.span
  | collection _ s => s

end Reference

end ServiceCatalog
