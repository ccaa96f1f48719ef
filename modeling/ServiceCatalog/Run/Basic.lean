import ServiceCatalog.Command.Arguments
import ServiceCatalog.Diagnostic
import ServiceCatalog.Providers.FromSources
import ServiceCatalog.Registry.Platform
import ServiceCatalog.Run.Input
import ServiceCatalog.Run.Manifest

/-!
# Runs

A run empties the output directory, and then writes the manifests of its providers, unless there were
errors before it.  A command is a run on what its inputs hold, sources or compiled classes.
-/

namespace ServiceCatalog

/-- How a run without an error ends. -/
inductive RunOutcome where
  /-- There were errors before the run, so it has written nothing. -/
  | skipped
  /-- The manifests that were written. -/
  | written (paths : List FilePath)
  deriving DecidableEq, Repr

/-- Empties the output directory and writes the manifests of providers to it, where there were no errors
before and the providers could be found. -/
def run (root : FilePath) (ds : Diagnostics) (providers : Except RunError ProviderMapping) :
    RunAction RunOutcome := do
  Manifest.clean root
  if ds.hasErrors then return .skipped
  else
    match providers with
    | .error e => throw e
    | .ok m => return .written (← Manifest.write root m)

/-- The registry of the platform types and of a class path. -/
def FileTree.registry (t : FileTree) (classPath : List FilePath) : Except RunError Registry :=
  match Registry.load t classPath Registry.platform with
  | .ok _ r => .ok r
  | .error e _ => .error (.classPath e)

/-- The providers in sources. -/
def providersOfSources (sources : List SourceFile) (classPath : Registry) :
    Except RunError ProviderMapping := (analyze sources classPath).mapError .analysis

/-- The providers in class files. -/
def providersOfClasses (entries : List ClassFileEntry) : Except RunError ProviderMapping :=
  (ProviderMapping.ofClassFiles entries).mapError fun e => .classPath (.malformed e)

namespace Command

/-- The diagnostics and the providers of the inputs of a command. -/
def gather (c : Command) (t : FileTree) :
    Except RunError (Diagnostics × Except RunError ProviderMapping) := do
  match c.mode with
  | .source =>
    let texts ← t.sources c.inputs
    let (sources, ds) := SourceText.parseAll texts .empty
    let registry ← t.registry c.classPath
    return (ds, providersOfSources sources registry)
  | .binary =>
    let entries ← (t.allClassFiles c.inputs).mapError .classPath
    return (.empty, providersOfClasses entries)

/-- Carries out a command, and gives the paths of the manifests that it has written. -/
def execute (c : Command) : RunAction (List FilePath) := do
  let root ← MonadExcept.ofExcept (c.outputDirectory.mapError .option)
  let (ds, providers) ← MonadExcept.ofExcept (c.gather (← get))
  match ← run root ds providers with
  | .skipped => throw (.skipped ds.errorCount)
  | .written paths => return paths

end Command

end ServiceCatalog
