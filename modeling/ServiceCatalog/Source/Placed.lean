import ServiceCatalog.Name.ClassName
import ServiceCatalog.Tree

/-!
# Declarations in their place

A declaration does not know what encloses it, but its class does: its name begins with the names of the
enclosing declarations.  `Placed` is a declaration with the chain of those, and `SourceFile.placed` lists
the declarations of a file level by level, each with its chain.
-/

namespace ServiceCatalog

/-- A declaration with the declarations around it, outermost first. -/
structure Placed where
  enclosing : List ClassDecl
  decl : ClassDecl

namespace Placed

/-- A declaration that nothing encloses. -/
def top (d : ClassDecl) : Placed := ⟨[], d⟩

/-- The declarations directly inside one, in their place. -/
def inner (p : Placed) : List Placed := p.decl.declarations.map fun d => ⟨p.enclosing ++ [p.decl], d⟩

/-- The names of the enclosing declarations and of the declaration itself. -/
def path (p : Placed) : List String := (p.enclosing ++ [p.decl]).map fun d => d.name.name

/-- The class of the declaration in a package. -/
def className (p : Placed) (package : DottedName) : ClassName := ⟨package, ⟨p.path⟩⟩

theorem map_decl_flatMap_inner (level : List Placed) :
    (level.flatMap inner).map decl = ClassDecl.nextLevel (level.map decl) := by
  induction level with
  | nil => rfl
  | cons p ps ih =>
    simp only [ClassDecl.nextLevel, List.flatMap_cons, List.map_append, List.map_cons] at ih ⊢
    rw [ih]
    simp [inner, Function.comp_def]

/-- All declarations of a forest in their place, level by level. -/
def levels (level : List Placed) : List Placed :=
  match level with
  | [] => []
  | p :: ps => (p :: ps) ++ levels ((p :: ps).flatMap inner)
termination_by ClassDecl.forestSize (level.map decl)
decreasing_by
  have := ClassDecl.forestSize_nextLevel ((p :: ps).map decl)
  rw [map_decl_flatMap_inner]
  simp only [List.length_map, List.length_cons] at this ⊢
  omega

/-- The declarations alone are those of the forest, level by level. -/
theorem map_decl_levels (level : List Placed) : (levels level).map decl = ClassDecl.levels (level.map decl) := by
  fun_induction levels level with
  | case1 => simp [ClassDecl.levels]
  | case2 p ps ih =>
    rw [List.map_append, ih, map_decl_flatMap_inner]
    simp only [List.map_cons]
    rw [ClassDecl.levels]

end Placed

/-- The declarations of a file in their place, level by level. -/
def SourceFile.placed (f : SourceFile) : List Placed := Placed.levels (f.declarations.map Placed.top)

/-- The declarations of a file are those in their place. -/
theorem SourceFile.map_decl_placed (f : SourceFile) : f.placed.map Placed.decl = f.allDeclarations := by
  rw [SourceFile.placed, SourceFile.allDeclarations, Placed.map_decl_levels]
  simp [Placed.top, Function.comp_def]

end ServiceCatalog
