import ServiceCatalog.Registry.Basic
import ServiceCatalog.Source.Error
import ServiceCatalog.Tree

/-!
# Registering sources

Every class of the sources, however deeply nested, and every type alias is registered before anything is
resolved, so a reference may name what is declared later or in another file.  What is written in the
declarations, supertypes and alias targets, is kept for linking.

`declared` lists the classes of a file with the names they are registered under, each class before those
nested in it.
-/

namespace ServiceCatalog

/-- A class of a source file under its name, with the classes around it, innermost first. -/
structure Declared where
  file : SourceFile
  name : ClassName
  scopes : List ClassName
  kind : ClassKind
  supertypes : List TypeRef

/-- A type alias of a source file under its name. -/
structure DeclaredAlias where
  file : SourceFile
  name : DottedName
  target : TypeRef

namespace SourceFile

/-- The classes of a forest, given how to name one and the classes around them. -/
def declaredIn (f : SourceFile) (nameOf : String → ClassName) (scopes : List ClassName) :
    List ClassDecl → List Declared
  | [] => []
  | ⟨kind, ident, _, supertypes, inner, _⟩ :: ds =>
    let name := nameOf ident.name
    ⟨f, name, scopes, kind, supertypes⟩ :: (declaredIn f name.nested (name :: scopes) inner ++
      declaredIn f nameOf scopes ds)

/-- The classes of a file, each before those nested in it. -/
def declared (f : SourceFile) : List Declared :=
  f.declaredIn (.topLevel f.packageName) [] f.declarations

/-- The type aliases of a file. -/
def declaredAliases (f : SourceFile) : List DeclaredAlias :=
  f.typeAliases.map fun a => ⟨f, f.packageName.child a.name.name, a.target⟩

end SourceFile

/-- The kind under which a declared class is registered; a companion object is an object. -/
def ClassKind.entryKind : ClassKind → EntryKind
  | «class» => .class
  | interface => .interface
  | object | companionObject => .object
  | enumClass => .enumClass
  | annotationClass => .annotationClass

namespace Registry

/-- Registers a class of a source file. -/
def registerDeclared (r : Registry) (d : Declared) : Except RegistrationError Registry :=
  r.registerClass ⟨d.name, d.kind.entryKind, .source⟩

/-- Registers a type alias of a source file, whose target is not known yet. -/
def registerDeclaredAlias (r : Registry) (a : DeclaredAlias) : Except RegistrationError Registry :=
  r.registerAlias ⟨a.name, none, .source⟩

/-- Registers the type aliases and the classes of a file. -/
def registerSource (r : Registry) (f : SourceFile) : Except RegistrationError Registry := do
  let r ← f.declaredAliases.foldlM registerDeclaredAlias r
  f.declared.foldlM registerDeclared r

/-- Registers the type aliases and the classes of all files. -/
def registerSources (r : Registry) (sources : List SourceFile) : Except RegistrationError Registry :=
  sources.foldlM registerSource r

end Registry

/-- What registration leaves for linking: the classes with supertypes, and the type aliases. -/
structure Pending where
  classes : List Declared
  aliases : List DeclaredAlias

/-- What the files leave for linking. -/
def Pending.ofSources (sources : List SourceFile) : Pending :=
  ⟨(sources.flatMap SourceFile.declared).filter fun d => !d.supertypes.isEmpty,
    sources.flatMap SourceFile.declaredAliases⟩

end ServiceCatalog
