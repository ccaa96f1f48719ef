import ServiceCatalog.Name.ClassName

/-!
# What the registry holds

Classes and type aliases, each with the layer it came from.
-/

namespace ServiceCatalog

/-- The kinds of registered classes. -/
inductive EntryKind where
  | «class»
  | interface
  | object
  | enumClass
  | annotationClass
  deriving DecidableEq, Repr, Inhabited

/-- The layer an entry came from. -/
inductive Origin where
  /-- The sources that are analyzed. -/
  | source
  /-- Class files on the class path. -/
  | classPath
  /-- The types that are known without a class path. -/
  | platform
  deriving DecidableEq, Repr, Inhabited

/-- A registered class. -/
structure ClassEntry where
  name : ClassName
  kind : EntryKind
  origin : Origin
  deriving DecidableEq, Repr, Inhabited

/-- A registered type alias.  Its target is unknown until it is linked. -/
structure AliasEntry where
  name : DottedName
  target : Option DottedName
  origin : Origin
  deriving DecidableEq, Repr, Inhabited

/-- Why a declaration cannot be registered. -/
inductive RegistrationError where
  | duplicateClass (name : DottedName)
  | duplicateAlias (name : DottedName)
  deriving DecidableEq, Repr

/-- The message of the error. -/
def RegistrationError.message : RegistrationError → String
  | duplicateClass name => "redeclaration of class '" ++ name.text ++ "'"
  | duplicateAlias name => "redeclaration of type alias '" ++ name.text ++ "'"

end ServiceCatalog
