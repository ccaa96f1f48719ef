import ServiceCatalog.Resolve.Lookup
import ServiceCatalog.Resolve.Reference
import ServiceCatalog.Source.Error

/-!
# Resolving references

From a reference to the dotted name of the class or type alias that it denotes.  The shape of a reference
is taken off first: type arguments, question marks and annotations do not matter, and a qualified name
that is known as it stands is accepted.  What remains is a text, which is looked up.

A type whose element cannot be resolved is looked up once more by the text of all its tokens.
-/

namespace ServiceCatalog

namespace Resolver

variable (r : Resolver) (c : Context)

/-- Resolves a name or a dotted text. -/
def resolveText (text : String) (span : Span) : Except AnalysisError DottedName :=
  match r.lookUp c text with
  | some name => .ok name
  | none => .error (.unresolvable text c.file.name span)

/-- Resolves a dotted path. -/
def resolvePath (p : Path) : Except AnalysisError DottedName :=
  if r.isClass p.dotted then .ok p.dotted else r.resolveText c p.text p.span

/-- Resolves a named type. -/
def resolveUserType (u : UserType) : Except AnalysisError DottedName :=
  if !u.qualifier.isEmpty && r.isClass (.ofText u.pathText) then .ok (.ofText u.pathText)
  else r.resolveText c u.pathText u.span

/-- Resolves the shape of a type. -/
def resolveElement : TypeElement → Except AnalysisError DottedName
  | .user u => r.resolveUserType c u
  | .nullable e => resolveElement e
  | .function span => .error (.unsupported "function type" c.file.name span)

/-- Resolves a type as it is written. -/
def resolveType (t : TypeRef) : Except AnalysisError DottedName :=
  match r.resolveElement c t.element with
  | .error (.unresolvable _ _ _) => r.resolveText c t.text t.span
  | result => result

/-- Resolves a reference. -/
def resolve : Reference → Except AnalysisError DottedName
  | .name i => r.resolveText c i.name i.span
  | .path p => r.resolvePath c p
  | .userType u => r.resolveUserType c u
  | .typeRef t => r.resolveType c t
  | .nullable e _ => r.resolveElement c e
  | .annotationUse a => r.resolveType c a.type
  | .collection elements span =>
    .error (.unsupported (Reference.collection elements span).text c.file.name span)

end Resolver

end ServiceCatalog
