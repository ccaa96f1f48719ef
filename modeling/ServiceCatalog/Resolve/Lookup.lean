import ServiceCatalog.Registry.Basic
import ServiceCatalog.Tree

/-!
# Looking up a name

A name that is written in a file can come from seven places, which are tried in a fixed order: an import
that ends in it, an import of the class it begins with, the package of the file, the packages that every
file sees, the classes around the place, an import of everything in a package, and an import under the
name itself.  The first place that answers wins.

An import without an alias is believed when it is the only one that fits, whether or not what it imports
is known; of several, the first one whose class or alias is known is taken.
-/

namespace ServiceCatalog

/-- How far a look-up reaches.  While supertypes are still being linked, the classes around a place
contribute their own nested classes only. -/
inductive Extent where
  | full
  | linking
  deriving DecidableEq, Repr, Inhabited

/-- What names can resolve to, and how far look-ups reach. -/
structure Resolver where
  registry : Registry
  extent : Extent

/-- The place of a reference: its file and the classes around it, innermost first. -/
structure Context where
  file : SourceFile
  scopes : List ClassName

/-- The packages whose classes every file sees, in the order of their look-up. -/
def implicitPackages : List DottedName :=
  ["kotlin", "kotlin.collections", "kotlin.jvm", "java.lang"].map .ofText

namespace Resolver

variable (r : Resolver) (c : Context) (name : String)

/-- Whether a class of the name is known. -/
def isClass (n : DottedName) : Bool := (r.registry.findClass? n).isSome

/-- Whether a class or a type alias of the name is known. -/
def isClassifier (n : DottedName) : Bool := r.isClass n || (r.registry.alias? n).isSome

/-- A single candidate as it is; of several, the first one that is known. -/
def pick : List DottedName → Option DottedName
  | [candidate] => some candidate
  | candidates => candidates.find? r.isClassifier

/-- The imports of one name without an alias. -/
def plainImports (c : Context) : List Import :=
  c.file.imports.filter fun i => !i.isWildcard && i.localName.isNone

/-- The imports of everything in a package. -/
def wildcardImports (c : Context) : List Import := c.file.imports.filter Import.isWildcard

/-- An import that ends in the name. -/
def exactImport : Option DottedName :=
  r.pick (((plainImports c).filter fun i => i.path.shortName = name).map Import.target)

/-- An import that ends in the first segment of a dotted name. -/
def outerImport : Option DottedName :=
  (Text.cutFirst '.' name).bind fun cut =>
    r.pick (((plainImports c).filter fun i => i.path.shortName = cut.1).map fun i =>
      i.target.parent.join name)

/-- The name in the package of the file. -/
def samePackage : Option DottedName := some (c.file.packageName.join name) |>.filter r.isClassifier

/-- A class of the name in a package that every file sees. -/
def implicitPackage : Option DottedName := (implicitPackages.map (·.join name)).find? r.isClass

/-- The class of the name nested in a class. -/
def nestedIn (outer : ClassName) : Option DottedName :=
  let candidate : ClassName := ⟨outer.package, outer.relative.join name⟩
  (r.registry.class? candidate).map fun _ => candidate.dotted

/-- The class of the name nested in a class or, if look-ups reach so far, in one of its supertypes. -/
def inScope (scope : ClassName) : Option DottedName :=
  match r.nestedIn name scope, r.extent with
  | some found, _ => some found
  | none, .linking => none
  | none, .full => (r.registry.hierarchy.closure scope).tail.findSome? (r.nestedIn name)

/-- The class of the name nested in a class around the place. -/
def enclosingScope : Option DottedName := c.scopes.findSome? (r.inScope name)

/-- The name in a package of which everything is imported. -/
def wildcardImport : Option DottedName :=
  ((wildcardImports c).map fun i => i.target.join name).find? r.isClassifier

/-- What is imported under the name. -/
def namedImport : Option DottedName :=
  (c.file.imports.find? fun i => i.introduced? = some name).map Import.target

/-- What the name stands for. -/
def lookUp : Option DottedName :=
  r.exactImport c name <|> r.outerImport c name <|> r.samePackage c name <|> r.implicitPackage name <|>
    r.enclosingScope c name <|> r.wildcardImport c name <|> namedImport c name

end Resolver

end ServiceCatalog
