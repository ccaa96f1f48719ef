import ServiceCatalog.Diagnostic
import ServiceCatalog.Parse.Declaration
import ServiceCatalog.Source.Error

/-!
# Sources

The sources of an analysis are parsed files.  Unparsed ones are read in one of two ways: strictly, where
the first file with errors ends the reading, or leniently, where such files are left out and their errors
become diagnostics.
-/

namespace ServiceCatalog

/-- A source file before it is parsed. -/
structure SourceText where
  name : String
  text : String
  deriving DecidableEq, Repr

namespace SourceText

/-- The tree of the file, or the error that names it. -/
def parse (s : SourceText) : Except AnalysisError SourceFile :=
  match SourceFile.parse s.name s.text with
  | .ok f => .ok f
  | .error errors => .error (.parse s.name errors)

/-- The trees of all files, or the error of the first one that does not parse. -/
def parseStrictly (texts : List SourceText) : Except AnalysisError (List SourceFile) := texts.mapM parse

/-- The tree of a file, and the diagnostics with its errors if it has none. -/
def parseInto (state : List SourceFile × Diagnostics) (s : SourceText) : List SourceFile × Diagnostics :=
  match SourceFile.parse s.name s.text with
  | .ok f => (state.1 ++ [f], state.2)
  | .error errors => (state.1, state.2.pushParseErrors s.name errors)

/-- The trees of the files that parse, and the diagnostics with the errors of the others. -/
def parseAll (texts : List SourceText) (ds : Diagnostics) : List SourceFile × Diagnostics :=
  texts.foldl parseInto ([], ds)

end SourceText

end ServiceCatalog
