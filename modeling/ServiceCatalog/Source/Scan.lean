import ServiceCatalog.Source.Placed

/-!
# Annotated declarations

Which declarations carry a given annotation.  The question is answered from the text of a file alone: an
annotation is found by its full name, or by its short name where an import or a rule of the language makes
that visible, and whatever cannot be shown to be the annotation is not.
-/

namespace ServiceCatalog

/-- The annotation that registers a class as a provider. -/
def autoService : DottedName := .ofText "com.google.auto.service.AutoService"

/-- Annotations that every file sees by their short names. -/
def visibleEverywhere : List String := ["kotlin.jvm.JvmSuppressWildcards", "kotlin.PublishedApi"]

/-- Whether an import lets a file write a name for an annotation class. -/
def Import.admits (i : Import) (wanted : DottedName) (written : String) : Bool :=
  if i.isWildcard then i.target = wanted.parent
  else i.target = wanted && i.introduced? = some written

/-- Whether a name that a file writes before a declaration is that of a given annotation class. -/
def SourceFile.names (f : SourceFile) (wanted : DottedName) (written : String) : Bool :=
  written ≠ "" &&
    (written = wanted.text ||
      (visibleEverywhere.contains wanted.text && written = wanted.shortName) ||
      (!written.toList.contains '.' && f.imports.any fun i => i.admits wanted written))

/-- The first of several annotations that is a given one. -/
def SourceFile.find? (f : SourceFile) (annotations : List AnnotationUse) (wanted : DottedName) :
    Option AnnotationUse :=
  annotations.find? fun a => f.names wanted a.writtenName

/-- A declaration that carries the annotation. -/
structure Scanned where
  file : SourceFile
  place : Placed
  found : AnnotationUse

namespace Scanned

/-- The class of the declaration. -/
def className (s : Scanned) : ClassName := s.place.className s.file.packageName

/-- The classes around the declaration, innermost first. -/
def enclosing (s : Scanned) : List ClassName := s.className.outers

/-- The declaration in its place, if it carries the annotation. -/
def of? (wanted : DottedName) (file : SourceFile) (place : Placed) : Option Scanned :=
  (file.find? place.decl.annotations wanted).map fun a => ⟨file, place, a⟩

end Scanned

/-- The declarations of a file that carry an annotation, level by level. -/
def SourceFile.scan (f : SourceFile) (wanted : DottedName) : List Scanned :=
  f.placed.filterMap (Scanned.of? wanted f)

/-- The declarations that carry an annotation, file by file. -/
def scan (wanted : DottedName) (sources : List SourceFile) : List Scanned :=
  sources.flatMap fun f => f.scan wanted

end ServiceCatalog
