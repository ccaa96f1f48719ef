import ServiceCatalog.Registry.Basic

/-!
# Calls to a registry

A registry is filled by calls, one behind the other.  A call answers whether it did what it asks for, or why it
was refused.  A registration opens the package of its name before it looks whether the name is taken, so the
registry behind a refused one is given as well.
-/

namespace ServiceCatalog

/-- What can be asked of a registry. -/
inductive RegistryCall where
  | registerClass (e : ClassEntry)
  | registerFile (f : ClassFile)
  | registerAlias (e : AliasEntry)
  | linkAlias (name target : DottedName)
  | addSupertype (sub super : ClassName)

namespace Registry

/-- The registry with a package of a given path, which is added if it is missing. -/
def openPackage (r : Registry) (path : List String) : Registry := r.changePackage path id

/-- The answer to a registration in a package, and the registry behind it. -/
def registered (r : Registry) (path : List String) : Except RegistrationError Registry →
    Except RegistrationError Bool × Registry
  | .ok r' => (.ok true, r')
  | .error refusal => (.error refusal, r.openPackage path)

/-- The answer to a call, and the registry behind it. -/
def call (r : Registry) : RegistryCall → Except RegistrationError Bool × Registry
  | .registerClass e => r.registered e.name.package.segments (r.registerClass e)
  | .registerFile f => ((.ok (r.registerFile f).1), (r.registerFile f).2)
  | .registerAlias e => r.registered e.name.parent.segments (r.registerAlias e)
  | .linkAlias name target =>
    match r.linkAlias? name target with
    | some r' => (.ok true, r')
    | none => (.ok false, r)
  | .addSupertype sub super => (.ok true, r.addSupertype sub super)

/-- The registry behind several calls. -/
def afterCalls (r : Registry) (calls : List RegistryCall) : Registry :=
  calls.foldl (fun r c => (r.call c).2) r

end Registry

end ServiceCatalog
