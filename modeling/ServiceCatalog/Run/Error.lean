import ServiceCatalog.Command.Options
import ServiceCatalog.Providers.ClassPath
import ServiceCatalog.Source.Error

/-!
# Errors of a run

Whatever ends a run before its manifests are written.
-/

namespace ServiceCatalog

/-- Why a run has not written its manifests. -/
inductive RunError where
  | option (e : OptionError)
  | input (path : FilePath) (fault : FileFault)
  | classPath (e : ClassPathError)
  | analysis (e : AnalysisError)
  | output (path : FilePath) (fault : FileFault)
  /-- There were errors before the analysis. -/
  | skipped (errors : Nat)
  deriving DecidableEq, Repr

/-- The message of the error. -/
def RunError.message : RunError → String
  | option e => e.message
  | input path fault => "unable to read " ++ path.text ++ ": " ++ fault.text
  | classPath e => e.message
  | analysis e => e.message
  | output path fault => "unable to write " ++ path.text ++ ": " ++ fault.text
  | skipped errors => "compilation failed with " ++ toString errors ++ " error(s)"

end ServiceCatalog
