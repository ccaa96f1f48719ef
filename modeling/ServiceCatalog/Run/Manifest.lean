import ServiceCatalog.Run.Error

/-!
# Manifests

Every interface with providers has a manifest: a file of its name in the directory of services, with a line
for each provider.  The directory that holds all this belongs to the runs alone, so it is emptied before
anything is written to it.
-/

namespace ServiceCatalog

/-- An action of a run on the file tree.  What was done before an error stays done. -/
abbrev RunAction (α : Type) := EStateM RunError FileTree α

/-- Changes the file tree for the sake of a path that is written to. -/
def RunAction.writing (path : FilePath) (change : FileTree.FileAction) : RunAction Unit := fun t =>
  match change t with
  | .ok _ t => .ok () t
  | .error fault t => .error (.output path fault) t

namespace Manifest

/-- The directory of the manifests in the output directory. -/
def servicesDirectory : String := metaDirectory ++ "/services"

/-- The directory of the manifests. -/
def directory (root : FilePath) : FilePath := root.join servicesDirectory

/-- The path of the manifest of an interface. -/
def path (root : FilePath) (interface : String) : FilePath := (directory root).join interface

/-- The text of a manifest: a line for each provider. -/
def text (providers : List String) : String := String.join (providers.map fun p => p ++ "\n")

/-- Empties the output directory. -/
def clean (root : FilePath) : RunAction Unit := RunAction.writing root (FileTree.clean root)

/-- Writes the manifest of an interface. -/
def writeOne (root : FilePath) (e : String × List String) : RunAction FilePath := do
  let file := path root e.1
  RunAction.writing file (FileTree.write file (utf8Bytes (text e.2)))
  return file

/-- Writes the manifests of a mapping, and gives their paths. -/
def write (root : FilePath) (m : ProviderMapping) : RunAction (List FilePath) := do
  RunAction.writing (directory root) (FileTree.makeDirectories (directory root))
  m.entries.mapM (writeOne root)

end Manifest

end ServiceCatalog
