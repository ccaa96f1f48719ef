import ServiceCatalog.Archive.Basic
import ServiceCatalog.Files.Tree
import ServiceCatalog.Providers.FromClasses
import ServiceCatalog.Registry.Basic

/-!
# Class paths

An element of a class path is a directory, an archive or a class file; anything else holds no classes.  In a
directory the class files and archives are taken at any depth, in the order of their paths, and in an
archive the class files in the order of its directory.  What lies below `META-INF` and the descriptions of
modules are left out.

* `FileTree.classFiles`: the class files of an element.
* `Registry.load`: a registry with the classes of all elements.
-/

namespace ServiceCatalog

/-- Why a class path cannot be read. -/
inductive ClassPathError where
  | unreadable (path : FilePath) (fault : FileFault)
  | invalidArchive (path : FilePath)
  | malformed (e : MalformedClass)
  deriving DecidableEq, Repr

/-- The message of the error. -/
def ClassPathError.message : ClassPathError → String
  | unreadable path fault => "I/O error while reading " ++ path.text ++ ": " ++ fault.text
  | invalidArchive path => "invalid archive " ++ path.text
  | malformed e => e.message

/-- The directory, in archives and elsewhere, that holds no classes. -/
def metaDirectory : String := "META-INF"

/-- Whether a name is that of a class file which can hold a class. -/
def isClassFileName (name : String) : Bool :=
  (Text.dropEnd? ".class" name).isSome && (Text.dropEnd? "module-info.class" name).isNone

namespace FilePath

/-- Whether a path ends in the name of a class file. -/
def isClassFile (p : FilePath) : Bool := p.fileName?.any isClassFileName

/-- Whether a path ends in the name of an archive. -/
def isArchive (p : FilePath) : Bool := p.extension?.any fun e => ["jar", "zip"].contains e.toLower

end FilePath

/-! ## Archives -/

/-- The fault of a file whose data cannot be unpacked. -/
def UnpackFault.fileFault : UnpackFault → FileFault
  | truncated => .unexpectedEof
  | corrupt => .invalidInput
  | wrongChecksum => .invalidData

/-- Whether a member of an archive is a class file that is wanted. -/
def ArchiveMember.isWanted (m : ArchiveMember) : Bool :=
  m.isFile && (Text.dropStart? (metaDirectory ++ "/") m.name).isNone && isClassFileName m.name

namespace Archive

/-- The class file that a member is, if it is one that is wanted.  Every member must be readable. -/
def classFile? (a : Archive) (path : FilePath) (m : ArchiveMember) :
    Except ClassPathError (Option ClassFileEntry) :=
  match a.packed? m with
  | none => .error (.invalidArchive path)
  | some packed =>
    if m.isWanted then
      match m.unpack packed with
      | .ok bytes => .ok (some ⟨path.text ++ "!/" ++ m.name, bytes⟩)
      | .error fault => .error (.unreadable path fault.fileFault)
    else .ok none

/-- The class files in the archive with given bytes. -/
def classFiles (path : FilePath) (bytes : List UInt8) : Except ClassPathError (List ClassFileEntry) :=
  match ofBytes? bytes with
  | none => .error (.invalidArchive path)
  | some a => do return (← a.members.mapM (a.classFile? path)).reduceOption

end Archive

/-! ## Elements of a class path -/

/-- The class files that a file is or holds.  Only a file that may have some is opened. -/
def classFilesOf (path : FilePath) (bytes : List UInt8) : Except ClassPathError (List ClassFileEntry) := do
  if path.isArchive ∨ path.isClassFile then (FileTree.check path).mapError (.unreadable path)
  if path.isArchive then Archive.classFiles path bytes
  else if path.isClassFile then return [⟨path.text, bytes⟩]
  else return []

namespace FileTree

/-- The class files of an element of a class path. -/
def classFiles (t : FileTree) (path : FilePath) : Except ClassPathError (List ClassFileEntry) :=
  match t.find path with
  | .error fault => .error (.unreadable path fault)
  | .ok (_, .file bytes) => classFilesOf path bytes
  | .ok (top, .directory) => do
    let files ← t.filesBelow path top (· ≠ metaDirectory) .unreadable
    let sorted := files.mergeSort fun a b => a.1.le b.1
    return (← sorted.mapM fun f => classFilesOf f.1 f.2).flatten

/-- The class files of several elements. -/
def allClassFiles (t : FileTree) (paths : List FilePath) : Except ClassPathError (List ClassFileEntry) := do
  return (← paths.mapM t.classFiles).flatten

end FileTree

namespace Registry

/-- Registers a class file, and says whether it did. -/
def loadEntry (e : ClassFileEntry) : EStateM ClassPathError Registry Bool := do
  match e.parse with
  | .error e => throw (.malformed e)
  | .ok f => modifyGet fun r => r.registerFile f

/-- Registers the classes of an element of a class path, and says how many.  A missing element has none. -/
def loadElement (t : FileTree) (path : FilePath) : EStateM ClassPathError Registry Nat := do
  match t.find path with
  | .error _ => return 0
  | .ok _ =>
    match t.classFiles path with
    | .error e => throw e
    | .ok entries => return (← entries.mapM loadEntry).count true

/-- Registers the classes of a class path, and says how many.  Those in front of a fault stay. -/
def load (t : FileTree) (paths : List FilePath) : EStateM ClassPathError Registry Nat := do
  paths.foldlM (fun n path => do return n + (← loadElement t path)) 0

end Registry

end ServiceCatalog
