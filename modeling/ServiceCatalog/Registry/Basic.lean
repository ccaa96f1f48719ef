import ServiceCatalog.ClassFile.Basic
import ServiceCatalog.Registry.Entry
import ServiceCatalog.Registry.Hierarchy
import ServiceCatalog.Registry.PackageTree
import ServiceCatalog.Table

/-!
# The registry of classes

Everything a reference can resolve to: classes and type aliases by package, and the supertypes of classes.
It is filled in layers, platform types first, then the class path, then the sources.

A class is kept in its package under its path of nested classes, so a dotted name, which does not show
where the package ends, is looked up at every cut, the longest package first.

* `registerClass`, `registerAlias`, `registerFile`: who gives way when a name is taken.
* `findClass?`, `class?`, `alias?`: look-ups by dotted name, by class and of aliases.
* `expand?`, `classifier?`: from an alias to the class at the end of its chain.
-/

namespace ServiceCatalog

/-- What is declared in a package: classes by their paths of nested classes, aliases by their names. -/
structure Package where
  classes : Table ClassEntry
  aliases : Table AliasEntry

/-- The package without declarations. -/
def Package.empty : Package := ⟨.empty, .empty⟩

/-- The classes and type aliases that references can resolve to. -/
structure Registry where
  packages : PackageTree Package
  hierarchy : Hierarchy
  /-- The number of registered classes, counted when one is added. -/
  classCount : Nat

namespace Registry

/-- The registry that holds nothing. -/
def empty : Registry := ⟨.single .empty, .empty, 0⟩

instance : Inhabited Registry := ⟨empty⟩

/-! ## Look-ups -/

/-- What is declared in a package. -/
def package? (r : Registry) (path : List String) : Option Package :=
  (r.packages.find? path).bind r.packages.data?

/-- Whether a package is known. -/
def hasPackage (r : Registry) (name : DottedName) : Bool := (r.packages.find? name.segments).isSome

/-- The entry of a class. -/
def class? (r : Registry) (c : ClassName) : Option ClassEntry :=
  (r.package? c.package.segments).bind fun p => p.classes.find? c.relative.text

/-- The cuts of a name into a package and a class, the longest package first. -/
def cuts (name : DottedName) : List ClassName :=
  (List.range name.size).reverse.map fun i => ⟨⟨name.segments.take i⟩, ⟨name.segments.drop i⟩⟩

/-- The class with a given dotted name; if several have it, the one in the longest package. -/
def findClass? (r : Registry) (name : DottedName) : Option ClassEntry := (cuts name).findSome? r.class?

/-- The type alias with a given name. -/
def alias? (r : Registry) (name : DottedName) : Option AliasEntry :=
  (r.package? name.parent.segments).bind fun p => p.aliases.find? name.shortName

/-- The longest chain of aliases that is followed. -/
def maxChain : Nat := 16

/-- Follows a chain of aliases to a class, through at most `fuel` aliases and none of them twice. -/
def follow? (r : Registry) : Nat → List DottedName → AliasEntry → Option ClassEntry
  | 0, _, _ => none
  | fuel + 1, passed, a =>
    if passed.contains a.name then none
    else a.target.bind fun target =>
      match r.findClass? target with
      | some c => some c
      | none => (r.alias? target).bind (r.follow? fuel (a.name :: passed))

/-- The class that an alias stands for. -/
def expand? (r : Registry) (name : DottedName) : Option ClassEntry :=
  (r.alias? name).bind (r.follow? maxChain [])

/-- The class with a given name, or the class that an alias of that name stands for. -/
def classifier? (r : Registry) (name : DottedName) : Option ClassEntry :=
  (r.findClass? name).orElse fun _ => r.expand? name

/-- All registered classes. -/
def classes (r : Registry) : List ClassEntry := r.packages.allData.flatMap fun p => p.classes.values

/-- All registered type aliases. -/
def aliases (r : Registry) : List AliasEntry := r.packages.allData.flatMap fun p => p.aliases.values

/-! ## Registration -/

/-- The registry with a package changed, which is added if it is missing. -/
def changePackage (r : Registry) (path : List String) (f : Package → Package) : Registry :=
  let (node, packages) := r.packages.ensure .empty path
  { r with packages := packages.modify f node }

/-- The registry with an entry for a class stored in its package, but not counted. -/
def storeClass (r : Registry) (e : ClassEntry) : Registry :=
  r.changePackage e.name.package.segments fun p =>
    { p with classes := p.classes.insert e.name.relative.text e }

/-- The registry with an entry for a class, in place of any other entry for it, which is not counted again. -/
def putClass (r : Registry) (e : ClassEntry) : Registry :=
  { r.storeClass e with classCount := if (r.class? e.name).isSome then r.classCount else r.classCount + 1 }

/-- The registry with an entry for a type alias, in place of any other entry for it. -/
def putAlias (r : Registry) (e : AliasEntry) : Registry :=
  r.changePackage e.name.parent.segments fun p =>
    { p with aliases := p.aliases.insert e.name.shortName e }

/-- Registers a class.  Two declarations in sources exclude each other, and of two class files the first
one stays; any other entry gives way to the new one. -/
def registerClass (r : Registry) (e : ClassEntry) : Except RegistrationError Registry :=
  match (r.class? e.name).map ClassEntry.origin, e.origin with
  | some .source, .source => .error (.duplicateClass e.name.dotted)
  | some .classPath, .classPath => .ok r
  | _, _ => .ok (r.putClass e)

/-- Registers a type alias.  Two declarations in sources exclude each other; any other entry gives way to
the new one. -/
def registerAlias (r : Registry) (e : AliasEntry) : Except RegistrationError Registry :=
  match (r.alias? e.name).map AliasEntry.origin, e.origin with
  | some .source, .source => .error (.duplicateAlias e.name)
  | _, _ => .ok (r.putAlias e)

/-- Sets the target of a type alias, if it is registered. -/
def linkAlias? (r : Registry) (name target : DottedName) : Option Registry :=
  (r.alias? name).map fun e =>
    r.changePackage name.parent.segments fun p =>
      { p with aliases := p.aliases.insert name.shortName { e with target := some target } }

/-- Declares a direct supertype. -/
def addSupertype (r : Registry) (sub super : ClassName) : Registry :=
  { r with hierarchy := r.hierarchy.add sub super }

/-- The kind of class that a class file holds. -/
def kindOf (f : ClassFile) : EntryKind :=
  if f.isAnnotationClass then .annotationClass
  else if f.isInterface then .interface
  else if f.isEnum then .enumClass
  else .class

/-- The class that a class file adds: none for modules, for classes that no source can mention, and for
classes that an earlier class file holds. -/
def newClass? (r : Registry) (f : ClassFile) : Option ClassName :=
  if f.isModule then none
  else f.className?.filter fun c => (r.class? c).map ClassEntry.origin ≠ some .classPath

/-- Registers the class of a class file with its supertypes, and says whether it did. -/
def registerFile (r : Registry) (f : ClassFile) : Bool × Registry :=
  match r.newClass? f with
  | none => (false, r)
  | some c =>
    let supers := f.supertypes.filterMap ClassName.ofInternal?
    let r := supers.foldl (fun r super => r.addSupertype c super) r
    match r.registerClass ⟨c, kindOf f, .classPath⟩ with
    | .ok r => (true, r)
    | .error _ => (false, r)

end Registry

end ServiceCatalog
