import ServiceCatalog.Name.Dotted

/-!
# Class names

A dotted name does not say where its package ends and the nesting of classes begins, but the written
forms of a class depend on it: a manifest and a class file join nested classes with a dollar sign.  A
`ClassName` keeps the two halves apart.

* `binary`: the form of manifests, `com.example.Outer$Inner`.
* `internal`: the form of class files, `com/example/Outer$Inner`.
* `ofInternal?`, `ofDescriptor?`: class names read back from class files.  Classes that no source text
  can mention, that is anonymous and local ones, have none.
-/

namespace ServiceCatalog

/-- A class: the package it lives in and its path of nested classes there, outermost first. -/
structure ClassName where
  package : DottedName
  relative : DottedName
  deriving DecidableEq, Repr, Inhabited

namespace ClassName

/-- A class that no other class encloses. -/
def topLevel (package : DottedName) (name : String) : ClassName := ⟨package, ⟨[name]⟩⟩

/-- A class nested directly in this one. -/
def nested (c : ClassName) (name : String) : ClassName := ⟨c.package, c.relative.child name⟩

/-- Whether another class encloses this one. -/
def isNested (c : ClassName) : Bool := 1 < c.relative.size

/-- The directly enclosing class. -/
def outer? (c : ClassName) : Option ClassName :=
  if c.isNested then some ⟨c.package, c.relative.parent⟩ else none

/-- The enclosing classes, innermost first. -/
def outers (c : ClassName) : List ClassName :=
  (List.range (c.relative.size - 1)).reverse.map fun i => ⟨c.package, ⟨c.relative.segments.take (i + 1)⟩⟩

/-- The last segment of the class's path. -/
def shortName (c : ClassName) : String := c.relative.shortName

/-- The dotted name, in which package and nesting look alike. -/
def dotted (c : ClassName) : DottedName := c.package ++ c.relative

/-- The written form with a given mark between package segments. -/
def written (mark : Char) (c : ClassName) : String :=
  let path := Text.joined '$' c.relative.segments
  if c.package.isRoot then path
  else Text.joined mark c.package.segments ++ String.singleton mark ++ path

/-- The form of manifests. -/
def binary (c : ClassName) : String := c.written '.'

/-- The form of class files. -/
def internal (c : ClassName) : String := c.written '/'

/-- The order of classes: by package, then by path. -/
instance : Ord ClassName :=
  ⟨fun a b => (compare a.package b.package).then (compare a.relative b.relative)⟩

/-- Whether a segment of a class file name can be written in a source text.  Compilers number the
anonymous and local classes, so their segments start with a digit. -/
def isNameable (segment : String) : Bool :=
  match segment.toList with
  | [] => false
  | c :: _ => !c.isDigit

/-- The package of a class file's package path.  Dots in the path cut as slashes do. -/
def packageOfPath (path : String) : DottedName :=
  .ofText (String.ofList (path.toList.map fun c => if c = '/' then '.' else c))

/-- The class path of a class file's simple name, if every segment can be written in a source text. -/
def relativeOf? (simple : String) : Option DottedName :=
  let segments := Text.parts '$' simple
  if segments.all isNameable then some ⟨segments⟩ else none

/-- The class with a given class file name. -/
def ofInternal? (s : String) : Option ClassName :=
  match Text.cutLast '/' s with
  | some (path, simple) => (relativeOf? simple).map fun r => ⟨packageOfPath path, r⟩
  | none => (relativeOf? s).map fun r => ⟨.root, r⟩

/-- The field descriptor of the class. -/
def descriptor (c : ClassName) : String := "L" ++ c.internal ++ ";"

/-- The class that a field descriptor names. -/
def ofDescriptor? (s : String) : Option ClassName :=
  (Text.dropStart? "L" s).bind fun t => (Text.dropEnd? ";" t).bind ofInternal?

@[simp] theorem package_nested (c : ClassName) (n : String) : (c.nested n).package = c.package := rfl

@[simp] theorem relative_nested (c : ClassName) (n : String) :
    (c.nested n).relative = c.relative.child n := rfl

@[simp] theorem segments_dotted (c : ClassName) :
    c.dotted.segments = c.package.segments ++ c.relative.segments := rfl

theorem eq_of_halves {c d : ClassName} (hpackage : c.package = d.package)
    (hrelative : c.relative = d.relative) : c = d := by
  cases c
  cases d
  rw [ClassName.mk.injEq]
  exact ⟨hpackage, hrelative⟩

end ClassName

end ServiceCatalog
