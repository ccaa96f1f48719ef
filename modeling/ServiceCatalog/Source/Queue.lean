import ServiceCatalog.Source.Scan

/-!
# The scan as a queue

The scan goes through a file with a queue.  It takes a declaration from the front, notes it if it carries the
annotation, and puts the declarations inside it at the end, each with a copy of the chain around it that is longer by
one.  What has been noted is carried from file to file.

* `SourceFile.scanQueue`: what is left of one file.
* `scanFiles`: all files.
-/

namespace ServiceCatalog

namespace Placed

/-- The declarations inside one are fewer than those and the one itself. -/
theorem forestSize_inner_lt (p : Placed) (queue : List Placed) :
    ClassDecl.forestSize ((queue ++ p.inner).map decl) < ClassDecl.forestSize ((p :: queue).map decl) := by
  obtain ⟨_, _, _, _, _, inner, _⟩ := p
  simp only [Placed.inner, List.map_append, List.map_map, Function.comp_def, List.map_id', List.map_cons,
    ClassDecl.forestSize_append, ClassDecl.forestSize]
  omega

end Placed

namespace SourceFile

/-- Takes declarations from a queue until it is empty and adds those that carry an annotation to what was found. -/
def scanQueue (f : SourceFile) (wanted : DottedName) : List Placed → List Scanned → List Scanned
  | [], found => found
  | p :: queue, found => f.scanQueue wanted (queue ++ p.inner) (found ++ (Scanned.of? wanted f p).toList)
termination_by queue => ClassDecl.forestSize (queue.map Placed.decl)
decreasing_by exact p.forestSize_inner_lt queue

/-- Adds the declarations of a file that carry an annotation to what was found before. -/
def scanInto (f : SourceFile) (wanted : DottedName) (found : List Scanned) : List Scanned :=
  f.scanQueue wanted (f.declarations.map Placed.top) found

end SourceFile

/-- Scans one file after the other. -/
def scanFiles (wanted : DottedName) (sources : List SourceFile) : List Scanned :=
  sources.foldl (fun found f => f.scanInto wanted found) []

end ServiceCatalog
