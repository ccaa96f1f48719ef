import Mathlib.Data.List.Forall2
import Mathlib.Data.List.Perm.Basic
import ServiceCatalog.Proofs.Resolve.Agreement
import ServiceCatalog.Proofs.Source.Placed
import ServiceCatalog.Proofs.Source.Registration
import ServiceCatalog.Source.Scan

/-!
# Sources in another order

Sources are reordered by listing the files in another order, and in each file the declarations at its top and
the type aliases.  Nothing that is nested changes its order.

A declaration remembers its file, but only the header of the file, which no reordering touches, can matter.
So declarations are compared after everything else of their files is taken away: they are `bare` then.

* `SourceFile.Reordered`, `Reordered`: files and sources in another order.
* `Reordered.entries_perm`: the declarations to register are the same ones in another order.
* `Reordered.exists_similar`: each scanned declaration is still there, in a file with the same header.
-/

namespace ServiceCatalog

/-- Two files that differ in the order of their declarations and of their type aliases. -/
structure SourceFile.Reordered (f g : SourceFile) : Prop where
  header_eq : f.header = g.header
  declarations : f.declarations.Perm g.declarations
  typeAliases : f.typeAliases.Perm g.typeAliases

/-- Two lists of files that differ in the order of the files and of what is in them. -/
def Reordered (sources sources' : List SourceFile) : Prop :=
  ∃ middle, List.Forall₂ SourceFile.Reordered sources middle ∧ middle.Perm sources'

theorem SourceFile.Reordered.symm {f g : SourceFile} (h : f.Reordered g) : g.Reordered f :=
  ⟨h.header_eq.symm, h.declarations.symm, h.typeAliases.symm⟩

theorem Reordered.symm {sources sources' : List SourceFile} (h : Reordered sources sources') :
    Reordered sources' sources := by
  obtain ⟨middle, hfiles, p⟩ := h
  have hfiles' : List.Forall₂ SourceFile.Reordered middle sources :=
    (hfiles.imp fun _ _ h => h.symm).flip
  exact List.perm_comp_forall₂ p.symm hfiles'

theorem Reordered.exists_file {sources sources' : List SourceFile} (h : Reordered sources sources')
    {f : SourceFile} (hf : f ∈ sources) : ∃ g ∈ sources', f.Reordered g := by
  obtain ⟨middle, hfiles, p⟩ := h
  have hmiddle : ∃ g ∈ middle, f.Reordered g := by
    clear p
    induction hfiles with
    | nil => exact absurd hf List.not_mem_nil
    | cons hfile _ ih =>
      rcases List.mem_cons.mp hf with rfl | hf
      · exact ⟨_, List.mem_cons_self .., hfile⟩
      · obtain ⟨g, hg, hfg⟩ := ih hf
        exact ⟨g, List.mem_cons_of_mem _ hg, hfg⟩
  obtain ⟨g, hg, hfg⟩ := hmiddle
  exact ⟨g, p.mem_iff.mp hg, hfg⟩

/-- Whatever is read off each file, up to order, is read off reordered sources, up to order. -/
theorem Reordered.flatMap_perm {α : Type} {sources sources' : List SourceFile}
    (h : Reordered sources sources') {read : SourceFile → List α}
    (hread : ∀ {f g : SourceFile}, f.Reordered g → (read f).Perm (read g)) :
    (sources.flatMap read).Perm (sources'.flatMap read) := by
  obtain ⟨middle, hfiles, p⟩ := h
  refine List.Perm.trans ?_ (p.flatMap_right read)
  clear p
  induction hfiles with
  | nil => exact .nil
  | cons hfile _ ih => exact (hread hfile).append ih

/-! ## Declarations to register -/

/-- A class apart from its file, of which the header is kept. -/
def Declared.bare (d : Declared) : Declared := { d with file := d.file.header }

/-- A type alias apart from its file, of which the header is kept. -/
def DeclaredAlias.bare (a : DeclaredAlias) : DeclaredAlias := { a with file := a.file.header }

namespace SourceFile

variable {f g : SourceFile}

/-- Declarations at the top are listed one by one. -/
theorem declaredIn_eq_flatMap (f : SourceFile) (nameOf : String → ClassName) (scopes : List ClassName)
    (ds : List ClassDecl) :
    f.declaredIn nameOf scopes ds = ds.flatMap fun d => f.declaredIn nameOf scopes [d] := by
  induction ds with
  | nil => rw [declaredIn, List.flatMap_nil]
  | cons d ds ih =>
    obtain ⟨kind, ident, annotations, supertypes, inner, span⟩ := d
    rw [List.flatMap_cons, ← ih]
    simp only [declaredIn, List.append_nil, List.cons_append]

theorem map_bare_declaredIn (f : SourceFile) (nameOf : String → ClassName) (scopes : List ClassName)
    (ds : List ClassDecl) :
    (f.declaredIn nameOf scopes ds).map Declared.bare = f.header.declaredIn nameOf scopes ds := by
  fun_induction f.declaredIn nameOf scopes ds with
  | case1 => rw [declaredIn, List.map_nil]
  | case2 nameOf scopes kind ident annotations supertypes inner span ds name ihInner =>
    rename_i ihRest
    rw [declaredIn, List.map_cons, List.map_append, ihInner, ihRest]
    rfl

theorem Reordered.packageName_eq (h : f.Reordered g) : f.packageName = g.packageName := by
  show f.header.packageName = g.header.packageName
  rw [h.header_eq]

theorem Reordered.declared_perm (h : f.Reordered g) :
    (f.declared.map Declared.bare).Perm (g.declared.map Declared.bare) := by
  rw [declared, declared, map_bare_declaredIn, map_bare_declaredIn, h.header_eq, h.packageName_eq,
    declaredIn_eq_flatMap, declaredIn_eq_flatMap g.header _ _ g.declarations]
  exact h.declarations.flatMap_right _

theorem Reordered.declaredAliases_perm (h : f.Reordered g) :
    (f.declaredAliases.map DeclaredAlias.bare).Perm (g.declaredAliases.map DeclaredAlias.bare) := by
  have hbare : ∀ file : SourceFile, file.declaredAliases.map DeclaredAlias.bare =
      file.typeAliases.map fun a => ⟨file.header, file.packageName.child a.name.name, a.target⟩ := by
    intro file
    rw [declaredAliases, List.map_map]
    rfl
  rw [hbare, hbare, h.header_eq, h.packageName_eq]
  exact h.typeAliases.map _

end SourceFile

/-- A declaration apart from its file. -/
def bareEntry : DeclaredAlias ⊕ Declared → DeclaredAlias ⊕ Declared :=
  Sum.map DeclaredAlias.bare Declared.bare

namespace Reordered

variable {sources sources' : List SourceFile} (h : Reordered sources sources')

include h

theorem declared_perm :
    ((sources.flatMap SourceFile.declared).map Declared.bare).Perm
      ((sources'.flatMap SourceFile.declared).map Declared.bare) := by
  rw [List.map_flatMap, List.map_flatMap]
  exact h.flatMap_perm fun hfile => hfile.declared_perm

theorem declaredAliases_perm :
    ((sources.flatMap SourceFile.declaredAliases).map DeclaredAlias.bare).Perm
      ((sources'.flatMap SourceFile.declaredAliases).map DeclaredAlias.bare) := by
  rw [List.map_flatMap, List.map_flatMap]
  exact h.flatMap_perm fun hfile => hfile.declaredAliases_perm

/-- The declarations to register are the same ones in another order. -/
theorem entries_perm :
    ((sources.flatMap SourceFile.entries).map bareEntry).Perm
      ((sources'.flatMap SourceFile.entries).map bareEntry) := by
  rw [List.map_flatMap, List.map_flatMap]
  refine h.flatMap_perm fun {f g} hfile => ?_
  have hentries : ∀ file : SourceFile, file.entries.map bareEntry =
      (file.declaredAliases.map DeclaredAlias.bare).map .inl ++
        (file.declared.map Declared.bare).map .inr := by
    intro file
    rw [SourceFile.entries, List.map_append]
    simp only [List.map_map]
    rfl
  rw [hentries, hentries]
  exact (hfile.declaredAliases_perm.map _).append (hfile.declared_perm.map _)

end Reordered

/-! ## Scanned declarations -/

/-- Two scanned declarations that are alike but for their files, which have the same header. -/
structure Scanned.Similar (s s' : Scanned) : Prop where
  header_eq : s.file.header = s'.file.header
  place_eq : s.place = s'.place
  found_eq : s.found = s'.found

theorem Scanned.Similar.symm {s s' : Scanned} (h : s.Similar s') : s'.Similar s :=
  ⟨h.header_eq.symm, h.place_eq.symm, h.found_eq.symm⟩

namespace SourceFile.Reordered

variable {f g : SourceFile}

theorem mem_placed (h : f.Reordered g) {p : Placed} (hp : p ∈ f.placed) : p ∈ g.placed := by
  obtain ⟨q, hq, hreach⟩ := Placed.mem_levels_iff.mp hp
  exact Placed.mem_levels_iff.mpr ⟨q, (h.declarations.map Placed.top).mem_iff.mp hq, hreach⟩

theorem exists_similar (h : f.Reordered g) {wanted : DottedName} {s : Scanned} (hs : s ∈ f.scan wanted) :
    ∃ s' ∈ g.scan wanted, s.Similar s' := by
  obtain ⟨p, hp, hfound⟩ := List.mem_filterMap.mp hs
  obtain ⟨a, ha, rfl⟩ := Option.map_eq_some_iff.mp hfound
  -- an annotation is looked for by the imports alone
  have hheader : f.header.find? p.decl.annotations wanted = g.header.find? p.decl.annotations wanted := by
    rw [h.header_eq]
  have ha' : g.find? p.decl.annotations wanted = some a := Eq.trans hheader.symm ha
  exact ⟨⟨g, p, a⟩, List.mem_filterMap.mpr ⟨p, h.mem_placed hp, Option.map_eq_some_iff.mpr ⟨a, ha', rfl⟩⟩,
    ⟨h.header_eq, rfl, rfl⟩⟩

end SourceFile.Reordered

/-- Each scanned declaration is still there, in a file with the same header. -/
theorem Reordered.exists_similar {sources sources' : List SourceFile} (h : Reordered sources sources')
    {wanted : DottedName} {s : Scanned} (hs : s ∈ scan wanted sources) :
    ∃ s' ∈ scan wanted sources', s.Similar s' := by
  obtain ⟨f, hf, hs⟩ := List.mem_flatMap.mp hs
  obtain ⟨g, hg, hfile⟩ := h.exists_file hf
  obtain ⟨s', hs', hsimilar⟩ := hfile.exists_similar hs
  exact ⟨s', List.mem_flatMap.mpr ⟨g, hg, hs'⟩, hsimilar⟩

end ServiceCatalog
