import ServiceCatalog.Providers.Mapping
import ServiceCatalog.Source.Linking
import ServiceCatalog.Source.Scan

/-!
# Providers in sources

The analysis of sources: register and link what they declare, find the declarations that carry the
registering annotation, and resolve the classes that its arguments name.  Whether a class implements what
it is registered for is not checked.
-/

namespace ServiceCatalog

/-! ## The arguments of an annotation -/

mutual

/-- The class literals in an argument, in order; or the first expression that is neither a class literal
nor a collection of such. -/
def references : Expr → Except Expr (List Reference)
  | .collection elements _ => referencesOfAll elements
  | e =>
    match Reference.ofArgument? e with
    | some r => .ok [r]
    | none => .error e

/-- The class literals in several arguments. -/
def referencesOfAll : List Expr → Except Expr (List Reference)
  | [] => .ok []
  | e :: es => do
    let first ← references e
    let others ← referencesOfAll es
    return first ++ others

end

namespace Scanned

/-- The error that something in the annotation is not supported. -/
def unsupported (s : Scanned) (text : String) (span : Span) : AnalysisError :=
  .unsupported text s.file.name span

/-- The references in an argument of the annotation: it must be positional or named `value`. -/
def argumentReferences (s : Scanned) (a : Argument) : Except AnalysisError (List Reference) :=
  match a.name.filter fun i => i.name ≠ "value" with
  | some i => .error (s.unsupported i.name a.span)
  | none =>
    if a.isSpread then .error (s.unsupported a.value.text a.span)
    else match references a.value with
      | .ok found => .ok found
      | .error e => .error (s.unsupported e.text e.span)

/-- The references in the annotation of a declaration. -/
def allReferences (s : Scanned) : Except AnalysisError (List Reference) := do
  if s.found.arguments.isEmpty then
    throw (s.unsupported ("@" ++ s.found.writtenName) s.found.span)
  return (← s.found.arguments.mapM s.argumentReferences).flatten

/-- The place of the references in the annotation: the declaration itself is around them. -/
def context (s : Scanned) : Context := ⟨s.file, s.className :: s.enclosing⟩

end Scanned

/-! ## The mapping -/

namespace Registry

/-- The class that a reference in a scanned declaration denotes. -/
def interface (r : Registry) (s : Scanned) (reference : Reference) : Except AnalysisError ClassName := do
  let name ← (Resolver.mk r .full).resolve s.context reference
  match r.classifier? name with
  | some e => return e.name
  | none => throw (.unresolvable reference.text s.file.name reference.span)

/-- The class of a scanned declaration. -/
def provider (r : Registry) (s : Scanned) : Except AnalysisError ClassName :=
  match r.class? s.className with
  | some e => .ok e.name
  | none => .error (.unresolvable s.className.dotted.text s.file.name s.place.decl.name.span)

/-- The mapping with the pairs of a scanned declaration. -/
def addProvider (r : Registry) (m : ProviderMapping) (s : Scanned) :
    Except AnalysisError ProviderMapping := do
  let provider ← r.provider s
  let found ← s.allReferences
  let interfaces ← found.mapM (r.interface s)
  return interfaces.foldl (fun m i => m.insert i.binary provider.binary) m

/-- The mapping of scanned declarations. -/
def providers (r : Registry) (scanned : List Scanned) : Except AnalysisError ProviderMapping :=
  scanned.foldlM r.addProvider .empty

/-- The registry with the sources registered and linked. -/
def withSources (r : Registry) (sources : List SourceFile) : Except RegistrationError Registry := do
  let r ← r.registerSources sources
  return (r.link (.ofSources sources)).1

end Registry

/-- The providers in sources, given what else is on the class path. -/
def analyze (sources : List SourceFile) (classPath : Registry) : Except AnalysisError ProviderMapping :=
  match classPath.withSources sources with
  | .error e => .error (.registration e)
  | .ok r => r.providers (scan autoService sources)

end ServiceCatalog
