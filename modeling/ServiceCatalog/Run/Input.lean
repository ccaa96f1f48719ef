import ServiceCatalog.Run.Error
import ServiceCatalog.Source.Basic

/-!
# Reading sources

The sources of a run are the files it is given and, in the directories it is given, all files with the
extension of sources.  They are read in the order of their paths, each once.
-/

namespace ServiceCatalog

/-- The extension of source files. -/
def sourceExtension : String := "kt"

namespace FileTree

/-- The paths of the source files that a path leads to.  A file that is given itself may have any name. -/
def sourcePaths (t : FileTree) (path : FilePath) : Except RunError (List FilePath) :=
  match t.find path with
  | .error fault => .error (.input path fault)
  | .ok (_, .file _) => .ok [path]
  | .ok (top, .directory) => do
    let files ← t.filesBelow path top (fun _ => true) .input
    return (files.map Prod.fst).filter fun p => p.extension? = some sourceExtension

/-- The source at a path. -/
def source (t : FileTree) (path : FilePath) : Except RunError SourceText :=
  match t.read path with
  | .error fault => .error (.input path fault)
  | .ok bytes =>
    match ofUtf8? bytes with
    | some text => .ok ⟨path.text, text⟩
    | none => .error (.input path .invalidData)

/-- The sources that paths lead to. -/
def sources (t : FileTree) (paths : List FilePath) : Except RunError (List SourceText) := do
  let found ← paths.mapM t.sourcePaths
  (FilePath.inOrder found.flatten).mapM t.source

end FileTree

end ServiceCatalog
