import ServiceCatalog.ClassFile.Basic
import ServiceCatalog.Providers.Mapping
import ServiceCatalog.Source.Scan

/-!
# Providers in class files

In a class file the arguments of an annotation are resolved already, so the providers are read off: each
class that carries the registering annotation provides the classes in its value.  Files that stand for no
class of their own are left out: interfaces, modules, and what the Kotlin compiler marks as something other
than a class.
-/

namespace ServiceCatalog

/-- The bytes of a class file and where they were found. -/
structure ClassFileEntry where
  location : String
  bytes : List UInt8
  deriving DecidableEq, Repr

/-- A class file that is malformed, and where it was found. -/
structure MalformedClass where
  location : String
  error : ClassFileError
  deriving DecidableEq, Repr

/-- The message of the error. -/
def MalformedClass.message (e : MalformedClass) : String :=
  "malformed class file " ++ e.location ++ ": " ++ e.error.message

/-- The class file, or the error that names its place. -/
def ClassFileEntry.parse (e : ClassFileEntry) : Except MalformedClass ClassFile :=
  match ClassFile.parse e.bytes with
  | .ok f => .ok f
  | .error error => .error ⟨e.location, error⟩

namespace ClassFile

/-- The descriptor of the annotation that registers a class as a provider. -/
def autoServiceDescriptor : String := (ClassName.topLevel autoService.parent autoService.shortName).descriptor

/-- Whether a class file stands for a class that can have instances. -/
def isInstantiable (f : ClassFile) : Bool :=
  !f.isInterface && !f.isAnnotationClass && !f.isModule && (f.metadata?.all (· = .class))

/-- The values that name the interfaces of an annotation. -/
def classValues (a : AnnotationRecord) : List ElementValue :=
  match a.element? "value" with
  | some (.array values) => values
  | some (.class descriptor) => [.class descriptor]
  | _ => []

/-- The class that a value names, if it is a class literal. -/
def namedClass? (v : ElementValue) : Option ClassName := v.class?.bind ClassName.ofDescriptor?

/-- The interfaces that the class of a class file is registered for. -/
def registeredFor (f : ClassFile) : List ClassName :=
  match f.find? autoServiceDescriptor with
  | none => []
  | some a => (classValues a).filterMap namedClass?

/-- The pairs of an interface and a provider that a class file contributes. -/
def providerPairs (f : ClassFile) : List (ClassName × ClassName) :=
  match f.className? with
  | none => []
  | some provider => if f.isInstantiable then f.registeredFor.map fun i => (i, provider) else []

end ClassFile

namespace ProviderMapping

/-- The mapping with the pairs of a class file. -/
def addClassFile (m : ProviderMapping) (f : ClassFile) : ProviderMapping :=
  f.providerPairs.foldl (fun m p => m.insert p.1.binary p.2.binary) m

/-- The providers in class files, or the error of the first file that is malformed. -/
def ofClassFiles (entries : List ClassFileEntry) : Except MalformedClass ProviderMapping :=
  entries.foldlM (fun m e => do return m.addClassFile (← e.parse)) empty

end ProviderMapping

end ServiceCatalog
