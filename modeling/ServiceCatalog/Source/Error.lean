import ServiceCatalog.Parse.Error
import ServiceCatalog.Registry.Entry

/-!
# Errors of the analysis

Every error is fatal: an analysis yields the complete mapping of providers or none.
-/

namespace ServiceCatalog

/-- Why sources have no mapping of providers. -/
inductive AnalysisError where
  /-- A reference for which every way of resolving it failed. -/
  | unresolvable (reference file : String) (span : Span)
  /-- An argument that is neither a class literal nor a collection of class literals. -/
  | unsupported (text file : String) (span : Span)
  /-- A file with parse errors. -/
  | parse (file : String) (errors : List ParseError)
  /-- A declaration that cannot be registered. -/
  | registration (e : RegistrationError)
  deriving DecidableEq, Repr

/-- The message of the error. -/
def AnalysisError.message : AnalysisError → String
  | unresolvable reference file span =>
    file ++ ":" ++ span.text ++ ": couldn't resolve reference '" ++ reference ++ "'"
  | unsupported text file span =>
    file ++ ":" ++ span.text ++ ": unsupported annotation argument '" ++ text ++ "'"
  | parse file errors => "failed to parse " ++ file ++ ":\n" ++ ParseError.listing errors
  | registration e => e.message

end ServiceCatalog
