import ServiceCatalog.Registry.Basic

/-!
# Platform types

The packages that every source file imports without saying so are known to the resolver even when no
standard library is on the class path: `Registry.platform` holds their most common classes with their
supertypes.  Class files replace them.
-/

namespace ServiceCatalog

/-- A class that is known without a class path. -/
structure PlatformType where
  package : String
  name : String
  kind : EntryKind
  supertypes : List String

namespace PlatformType

/-- The class. -/
def className (t : PlatformType) : ClassName := .topLevel (.ofText t.package) t.name

/-- The top-level class with a given dotted name. -/
def topLevelOf (s : String) : ClassName :=
  let name := DottedName.ofText s
  .topLevel name.parent name.shortName

/-- All classes that are known without a class path. -/
def all : List PlatformType :=
  [⟨"kotlin", "Any", .class, []⟩,
    ⟨"kotlin", "Nothing", .class, []⟩,
    ⟨"kotlin", "Unit", .class, ["kotlin.Any"]⟩,
    ⟨"kotlin", "Annotation", .interface, []⟩,
    ⟨"kotlin", "CharSequence", .interface, []⟩,
    ⟨"kotlin", "Comparable", .interface, []⟩,
    ⟨"kotlin", "Function", .interface, []⟩,
    ⟨"kotlin", "Lazy", .interface, []⟩,
    ⟨"kotlin", "Number", .class, ["kotlin.Any"]⟩,
    ⟨"kotlin", "String", .class, ["kotlin.Comparable", "kotlin.CharSequence"]⟩,
    ⟨"kotlin", "Int", .class, ["kotlin.Number", "kotlin.Comparable"]⟩,
    ⟨"kotlin", "Long", .class, ["kotlin.Number", "kotlin.Comparable"]⟩,
    ⟨"kotlin", "Boolean", .class, ["kotlin.Comparable"]⟩,
    ⟨"kotlin", "Enum", .class, ["kotlin.Comparable"]⟩,
    ⟨"kotlin", "Throwable", .class, ["kotlin.Any"]⟩,
    ⟨"kotlin", "PublishedApi", .annotationClass, ["kotlin.Annotation"]⟩,
    ⟨"kotlin.collections", "Iterator", .interface, []⟩,
    ⟨"kotlin.collections", "Iterable", .interface, []⟩,
    ⟨"kotlin.collections", "MutableIterable", .interface, ["kotlin.collections.Iterable"]⟩,
    ⟨"kotlin.collections", "Collection", .interface, ["kotlin.collections.Iterable"]⟩,
    ⟨"kotlin.collections", "MutableCollection", .interface,
      ["kotlin.collections.Collection", "kotlin.collections.MutableIterable"]⟩,
    ⟨"kotlin.collections", "List", .interface, ["kotlin.collections.Collection"]⟩,
    ⟨"kotlin.collections", "MutableList", .interface,
      ["kotlin.collections.List", "kotlin.collections.MutableCollection"]⟩,
    ⟨"kotlin.collections", "Set", .interface, ["kotlin.collections.Collection"]⟩,
    ⟨"kotlin.collections", "MutableSet", .interface,
      ["kotlin.collections.Set", "kotlin.collections.MutableCollection"]⟩,
    ⟨"kotlin.collections", "Map", .interface, []⟩,
    ⟨"kotlin.collections", "MutableMap", .interface, ["kotlin.collections.Map"]⟩,
    ⟨"kotlin.jvm", "JvmStatic", .annotationClass, ["kotlin.Annotation"]⟩,
    ⟨"kotlin.jvm", "JvmField", .annotationClass, ["kotlin.Annotation"]⟩,
    ⟨"kotlin.jvm", "JvmSuppressWildcards", .annotationClass, ["kotlin.Annotation"]⟩,
    ⟨"java.lang", "Object", .class, []⟩,
    ⟨"java.lang", "AutoCloseable", .interface, []⟩,
    ⟨"java.lang", "Cloneable", .interface, []⟩,
    ⟨"java.lang", "Runnable", .interface, []⟩,
    ⟨"java.lang", "Comparable", .interface, []⟩,
    ⟨"java.lang", "Iterable", .interface, []⟩,
    ⟨"java.lang", "CharSequence", .interface, []⟩,
    ⟨"java.lang", "Thread", .class, ["java.lang.Object", "java.lang.Runnable"]⟩,
    ⟨"java.lang", "Throwable", .class, ["java.lang.Object"]⟩,
    ⟨"java.lang", "Exception", .class, ["java.lang.Throwable"]⟩,
    ⟨"java.lang", "RuntimeException", .class, ["java.lang.Exception"]⟩]

end PlatformType

/-- Registers a platform type with its supertypes. -/
def Registry.putPlatformType (r : Registry) (t : PlatformType) : Registry :=
  let r := t.supertypes.foldl (fun r s => r.addSupertype t.className (PlatformType.topLevelOf s)) r
  r.putClass ⟨t.className, t.kind, .platform⟩

/-- The registry of the platform types. -/
def Registry.platform : Registry := PlatformType.all.foldl Registry.putPlatformType .empty

end ServiceCatalog
