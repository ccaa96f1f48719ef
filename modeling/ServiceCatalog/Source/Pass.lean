import ServiceCatalog.Source.Registration

/-!
# Registration as a pass

Registration goes through the files once and carries along what it has found: the registry, the numbers of
registered classes and type aliases, and what is left for linking.  It descends into a class before it goes on to the
next one, and builds names and scopes on the way down.

* `Registration.visitClass`: a class and everything nested in it.
* `Registration.run`: all files.
-/

namespace ServiceCatalog

/-- A registration in progress. -/
structure Registration where
  registry : Registry
  classes : Nat
  aliases : Nat
  pending : Pending

namespace Registration

/-- A registration at its beginning. -/
def start (r : Registry) : Registration := ⟨r, 0, 0, ⟨[], []⟩⟩

/-- Registers a type alias and leaves its target for linking. -/
def addAlias (s : Registration) (a : DeclaredAlias) : Except RegistrationError Registration := do
  let r ← s.registry.registerDeclaredAlias a
  return ⟨r, s.classes, s.aliases + 1, ⟨s.pending.classes, s.pending.aliases ++ [a]⟩⟩

/-- Registers a class and leaves its supertypes for linking, if it has some. -/
def addClass (s : Registration) (d : Declared) : Except RegistrationError Registration := do
  let r ← s.registry.registerDeclared d
  let left := if d.supertypes.isEmpty then s.pending.classes else s.pending.classes ++ [d]
  return ⟨r, s.classes + 1, s.aliases, ⟨left, s.pending.aliases⟩⟩

mutual

/-- Registers a class under a name, and then everything nested in it; the classes around it are given innermost
first. -/
def visitClass (f : SourceFile) (name : ClassName) (scopes : List ClassName) :
    ClassDecl → Registration → Except RegistrationError Registration
  | ⟨kind, _, _, supertypes, inner, _⟩, s => do
    let s ← s.addClass ⟨f, name, scopes, kind, supertypes⟩
    visitClasses f name.nested (name :: scopes) inner s

/-- Registers classes one after the other, given how to name one. -/
def visitClasses (f : SourceFile) (nameOf : String → ClassName) (scopes : List ClassName) :
    List ClassDecl → Registration → Except RegistrationError Registration
  | [], s => .ok s
  | d :: ds, s => do
    let s ← visitClass f (nameOf d.name.name) scopes d s
    visitClasses f nameOf scopes ds s

end

/-- Registers the type aliases and the classes of a file. -/
def visitFile (s : Registration) (f : SourceFile) : Except RegistrationError Registration := do
  let s ← f.declaredAliases.foldlM addAlias s
  visitClasses f (.topLevel f.packageName) [] f.declarations s

/-- Registers the type aliases and the classes of all files. -/
def run (r : Registry) (sources : List SourceFile) : Except RegistrationError Registration :=
  sources.foldlM visitFile (start r)

end Registration

end ServiceCatalog
