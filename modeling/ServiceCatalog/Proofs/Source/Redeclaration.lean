import Mathlib.Data.List.Nodup
import ServiceCatalog.Parse.Declaration
import ServiceCatalog.Proofs.Name.Written
import ServiceCatalog.Proofs.Source.Identity

/-!
# Redeclarations

Two declarations of the sources that have one name ought to exclude each other, be they classes or type aliases.  But
classes and type aliases are kept apart.  A registry looks for an earlier class among the classes and for an earlier
type alias among the type aliases, so a class and a type alias of one name are both registered.

* `Registry.register_eq_error_iff`, `Registry.foldlM_register_eq_error_iff`: what registration fails at.
* `pairwise_entries_iff`: the declarations have places of their own if the classes and the type aliases do.
* `ClassName.place_inj`: classes have one place only if their names are equal, unless a segment holds a dot.
* `Registration.run_succeeds_iff`: when registration succeeds, what it answers otherwise, and how that is related to
  declaring every name once.
-/

namespace ServiceCatalog

/-! ## Refusals -/

/-- Why a declaration is refused. -/
def refusal : DeclaredAlias ⊕ Declared → RegistrationError
  | .inl a => .duplicateAlias a.name
  | .inr d => .duplicateClass d.name.dotted

namespace Registry

variable {r : Registry} {e : RegistrationError}

/-- A declaration is refused exactly if a source entry is at its place. -/
theorem register_eq_error_iff {x : DeclaredAlias ⊕ Declared} :
    r.register x = .error e ↔ r.IsTaken x ∧ refusal x = e := by
  cases x with
  | inl a =>
    show r.registerAlias a.entry = .error e ↔ (r.alias? a.name).map AliasEntry.origin = some .source ∧ _
    have hname : a.entry.name = a.name := rfl
    rw [registerAlias, hname]
    cases (r.alias? a.name).map AliasEntry.origin with
    | none => simp [DeclaredAlias.entry]
    | some origin => cases origin <;> simp [DeclaredAlias.entry, refusal]
  | inr d =>
    show r.registerClass d.entry = .error e ↔ (r.class? d.name).map ClassEntry.origin = some .source ∧ _
    have hname : d.entry.name = d.name := rfl
    rw [registerClass, hname]
    cases (r.class? d.name).map ClassEntry.origin with
    | none => simp [Declared.entry]
    | some origin => cases origin <;> simp [Declared.entry, refusal]

/-- A place is taken behind several declarations if one of them has it, or if it was taken before. -/
theorem isTaken_putAll {l : List (DeclaredAlias ⊕ Declared)} {x : DeclaredAlias ⊕ Declared} :
    (r.putAll l).IsTaken x ↔ (∃ y ∈ l, SamePlace y x) ∨ r.IsTaken x := by
  induction l generalizing r with
  | nil => simp [putAll]
  | cons y l ih =>
    have hbehind : (r.putAll (y :: l)).IsTaken x ↔ (∃ z ∈ l, SamePlace z x) ∨ (r.put y).IsTaken x := ih
    rw [hbehind, isTaken_put, List.exists_mem_cons_iff, or_left_comm, or_assoc]

/-- Where no declaration meets an entry from before, registration fails at the first one that has the place of an
earlier one. -/
theorem foldlM_register_eq_error_iff {l : List (DeclaredAlias ⊕ Declared)} (hfree : ∀ x ∈ l, ¬ r.IsTaken x) :
    l.foldlM register r = .error e ↔ ∃ front x behind, l = front ++ x :: behind ∧
      front.Pairwise (fun y z => ¬ SamePlace y z) ∧ (∃ y ∈ front, SamePlace y x) ∧ refusal x = e := by
  rw [foldlM_eq_error_iff]
  refine exists_congr fun front => exists_congr fun x => exists_congr fun behind => and_congr_right fun hsplit => ?_
  have hfront : ∀ y ∈ front, ¬ r.IsTaken y := fun y hy => hfree y (hsplit ▸ List.mem_append_left _ hy)
  have hx : ¬ r.IsTaken x := hfree x (hsplit ▸ List.mem_append_right _ (List.mem_cons_self ..))
  simp only [foldlM_register_eq_ok_iff, register_eq_error_iff]
  constructor
  · rintro ⟨_, ⟨-, hpair, rfl⟩, htaken, he⟩
    exact ⟨hpair, (isTaken_putAll.mp htaken).resolve_right hx, he⟩
  · rintro ⟨hpair, hmeets, he⟩
    exact ⟨r.putAll front, ⟨hfront, hpair, rfl⟩, isTaken_putAll.mpr (.inl hmeets), he⟩

/-- Whether nothing in a registry comes from sources. -/
structure HasNoSource (r : Registry) : Prop where
  classes : ∀ e ∈ r.classes, e.origin ≠ .source
  aliases : ∀ a ∈ r.aliases, a.origin ≠ .source

/-- No place is taken in a registry without sources. -/
theorem HasNoSource.not_isTaken (h : r.HasNoSource) (x : DeclaredAlias ⊕ Declared) : ¬ r.IsTaken x := by
  intro htaken
  cases x with
  | inl a =>
    obtain ⟨entry, hentry, horigin⟩ := Option.map_eq_some_iff.mp htaken
    exact h.aliases entry (mem_aliases_of_alias? hentry) horigin
  | inr d =>
    obtain ⟨entry, hentry, horigin⟩ := Option.map_eq_some_iff.mp htaken
    exact h.classes entry (mem_classes_of_class? hentry) horigin

end Registry

/-! ## Names and places -/

namespace SourceFile

/-- The names that the classes of a file have, at any depth. -/
def classNames (f : SourceFile) : List ClassName := f.placed.map fun p => p.className f.packageName

/-- The names that the type aliases of a file have. -/
def aliasNames (f : SourceFile) : List ClassName := f.typeAliases.map fun a => .topLevel f.packageName a.name.name

end SourceFile

/-- Whether no two declarations of the files, be they classes or type aliases, have one package and one name in it. -/
def DeclaresOnce (sources : List SourceFile) : Prop :=
  (sources.flatMap fun f => f.classNames ++ f.aliasNames).Nodup

/-- Different classes have different places, unless a segment of their paths holds a dot. -/
theorem ClassName.place_inj {c d : ClassName} (hc : c.relative.segments ≠ []) (hd : d.relative.segments ≠ [])
    (hdotsc : ∀ s ∈ c.relative.segments, '.' ∉ s.toList) (hdotsd : ∀ s ∈ d.relative.segments, '.' ∉ s.toList) :
    c.place = d.place ↔ c = d := by
  refine ⟨fun h => ?_, congrArg ClassName.place⟩
  obtain ⟨hpackage, htext⟩ := Prod.mk.inj h
  have hsegments : c.relative.segments = d.relative.segments := by
    rw [← Text.parts_joined hdotsc hc, ← Text.parts_joined hdotsd hd]
    exact congrArg (Text.parts '.') htext
  obtain ⟨package, ⟨segments⟩⟩ := c
  obtain ⟨package', ⟨segments'⟩⟩ := d
  rw [show package = package' from hpackage, show segments = segments' from hsegments]

theorem map_name_declared_perm (sources : List SourceFile) :
    ((sources.flatMap SourceFile.declared).map Declared.name).Perm (sources.flatMap SourceFile.classNames) := by
  rw [List.map_flatMap]
  refine List.Perm.flatMap_left _ fun f _ => ?_
  have h := f.declared_perm_placed.map Declared.name
  rwa [List.map_map] at h

/-- Type aliases have one place only if they have one name. -/
theorem nodup_aliasNames_iff (sources : List SourceFile) :
    (sources.flatMap SourceFile.aliasNames).Nodup ↔
      ((sources.flatMap SourceFile.declaredAliases).map fun a => a.name.place).Nodup := by
  have hinj : Function.Injective fun p : DottedName × String => ClassName.topLevel p.1 p.2 := by
    rintro ⟨package, name⟩ ⟨package', name'⟩ h
    simpa [ClassName.topLevel] using h
  have hnames : sources.flatMap SourceFile.aliasNames =
      ((sources.flatMap SourceFile.declaredAliases).map fun a => a.name.place).map
        fun p => ClassName.topLevel p.1 p.2 := by
    rw [List.map_map, List.map_flatMap]
    refine List.flatMap_congr fun f _ => ?_
    simp [SourceFile.aliasNames, SourceFile.declaredAliases, DottedName.place]
  rw [hnames, List.nodup_map_iff hinj]

/-- The declarations have places of their own if the classes do and the type aliases do. -/
theorem pairwise_entries_iff (sources : List SourceFile) :
    (sources.flatMap SourceFile.entries).Pairwise (fun x y => ¬ SamePlace x y) ↔
      ((sources.flatMap SourceFile.classNames).map ClassName.place).Nodup ∧
        (sources.flatMap SourceFile.aliasNames).Nodup := by
  have hperm : ((sources.flatMap SourceFile.declaredAliases).map Sum.inl ++
      (sources.flatMap SourceFile.declared).map Sum.inr).Perm (sources.flatMap SourceFile.entries) := by
    rw [List.map_flatMap, List.map_flatMap]
    exact List.flatMap_append_perm ..
  have hclasses : ((sources.flatMap SourceFile.classNames).map ClassName.place).Nodup ↔
      (sources.flatMap SourceFile.declared).Pairwise fun d e => d.name.place ≠ e.name.place := by
    rw [← ((map_name_declared_perm sources).map ClassName.place).nodup_iff, List.map_map, List.Nodup,
      List.pairwise_map]
    rfl
  rw [← hperm.pairwise_iff fun h h' => h h'.symm, List.pairwise_append, List.pairwise_map, List.pairwise_map, hclasses,
    nodup_aliasNames_iff, List.Nodup, List.pairwise_map, and_comm (b := _ ∧ _), and_assoc]
  constructor
  · rintro ⟨hclasses, -, haliases⟩
    exact ⟨hclasses, haliases⟩
  · rintro ⟨hclasses, haliases⟩
    refine ⟨hclasses, fun x hx y hy => ?_, haliases⟩
    obtain ⟨a, -, rfl⟩ := List.mem_map.mp hx
    obtain ⟨d, -, rfl⟩ := List.mem_map.mp hy
    exact id

/-- Every name is declared once if the classes have different names, the type aliases have different names, and no
class has that of a type alias. -/
theorem declaresOnce_iff (sources : List SourceFile) :
    DeclaresOnce sources ↔ (sources.flatMap SourceFile.classNames).Nodup ∧
      (sources.flatMap SourceFile.aliasNames).Nodup ∧
      ∀ c ∈ sources.flatMap SourceFile.classNames, c ∉ sources.flatMap SourceFile.aliasNames := by
  rw [DeclaresOnce, ← (List.flatMap_append_perm ..).nodup_iff, List.nodup_append']
  rfl

/-- Where no segment holds a dot, the classes have different names if they have different places. -/
theorem nodup_place_iff {sources : List SourceFile}
    (hdots : ∀ c ∈ sources.flatMap SourceFile.classNames, ∀ s ∈ c.relative.segments, '.' ∉ s.toList) :
    ((sources.flatMap SourceFile.classNames).map ClassName.place).Nodup ↔
      (sources.flatMap SourceFile.classNames).Nodup := by
  have hne : ∀ c ∈ sources.flatMap SourceFile.classNames, c.relative.segments ≠ [] := by
    intro c hc
    obtain ⟨f, -, hc⟩ := List.mem_flatMap.mp hc
    obtain ⟨p, -, rfl⟩ := List.mem_map.mp hc
    exact p.segments_className_ne_nil _
  refine ⟨List.Nodup.of_map _, List.Nodup.map_on fun c hc d hd => ?_⟩
  exact (ClassName.place_inj (hne c hc) (hne d hd) (hdots c hc) (hdots d hd)).mp

/-! ## Success and failure -/

namespace Registration

variable {r : Registry}

/-- On a registry without sources registration succeeds exactly if the classes have different places and the type
aliases different names; otherwise it fails at the first declaration that has the place of an earlier one of its sort.
So where no segment of a class holds a dot, every name is declared once exactly if registration succeeds and no class
has the name of a type alias. -/
theorem run_succeeds_iff (hr : r.HasNoSource) (sources : List SourceFile) :
    ((∃ s, run r sources = .ok s) ↔ ((sources.flatMap SourceFile.classNames).map ClassName.place).Nodup ∧
        (sources.flatMap SourceFile.aliasNames).Nodup) ∧
      (∀ e, run r sources = .error e ↔ ∃ front x behind, sources.flatMap SourceFile.entries = front ++ x :: behind ∧
        front.Pairwise (fun y z => ¬ SamePlace y z) ∧ (∃ y ∈ front, SamePlace y x) ∧ refusal x = e) ∧
      ((∀ c ∈ sources.flatMap SourceFile.classNames, ∀ s ∈ c.relative.segments, '.' ∉ s.toList) →
        (DeclaresOnce sources ↔ (∃ s, run r sources = .ok s) ∧
          ∀ c ∈ sources.flatMap SourceFile.classNames, c ∉ sources.flatMap SourceFile.aliasNames)) := by
  have hfree : ∀ x ∈ sources.flatMap SourceFile.entries, ¬ r.IsTaken x := fun x _ => hr.not_isTaken x
  have hsucceeds : (∃ s, run r sources = .ok s) ↔
      ((sources.flatMap SourceFile.classNames).map ClassName.place).Nodup ∧
        (sources.flatMap SourceFile.aliasNames).Nodup := by
    rw [← pairwise_entries_iff]
    simp only [run_eq_ok_iff, Registry.registerSources_eq_foldlM, Registry.foldlM_register_eq_ok_iff]
    constructor
    · rintro ⟨s, r', ⟨-, hpair, -⟩, -⟩
      exact hpair
    · exact fun hpair => ⟨_, _, ⟨hfree, hpair, rfl⟩, rfl⟩
  refine ⟨hsucceeds, fun e => ?_, fun hdots => ?_⟩
  · rw [← Registry.foldlM_register_eq_error_iff hfree, ← Registry.registerSources_eq_foldlM, run_eq]
    cases r.registerSources sources <;> simp [Except.map]
  · rw [hsucceeds, nodup_place_iff hdots, declaresOnce_iff, and_assoc]

end Registration

/-! ### A class and a type alias of one name -/

namespace ClassAndAlias

/-- A file that declares a class and a type alias of one name. -/
def text : String := "package a\nclass Same\ntypealias Same = Other\n"

/-- What the file is read as. -/
def file : SourceFile :=
  ⟨"T.kt", [], some ⟨[⟨"a", ⟨1, 9, 1⟩⟩], ⟨1, 9, 1⟩⟩, [],
    [⟨.class, ⟨"Same", ⟨2, 7, 4⟩⟩, [], [], [], ⟨2, 1, 10⟩⟩],
    [⟨⟨"Same", ⟨3, 11, 4⟩⟩, [],
      ⟨.user ⟨[], ⟨⟨"Other", ⟨3, 18, 5⟩⟩, [], ⟨3, 18, 5⟩⟩⟩, [], "Other", ⟨3, 18, 5⟩⟩, ⟨3, 1, 22⟩⟩], ⟨1, 1, 12⟩⟩

/-- The registration of the file. -/
def registration : Registration := (Registration.run .empty [file]).toOption.getD (.start .empty)

set_option maxRecDepth 10000 in
theorem parse_same : SourceFile.parse "T.kt" text = .ok file := by
  with_unfolding_all rfl

theorem run_same : Registration.run .empty [file] = .ok registration := by cbv

theorem hasNoSource_empty : Registry.empty.HasNoSource := by
  constructor <;> simp [Registry.classes, Registry.aliases, Registry.empty, PackageTree.single, PackageTree.allData,
    Package.empty, Table.values, Table.empty]

theorem classNames_same : [file].flatMap SourceFile.classNames = [.topLevel (.ofText "a") "Same"] := by cbv

theorem aliasNames_same : [file].flatMap SourceFile.aliasNames = [.topLevel (.ofText "a") "Same"] := by cbv

/-- The file is registered, although it declares a name twice. -/
theorem same_name_registered : Registry.empty.HasNoSource ∧ (∃ s, Registration.run .empty [file] = .ok s) ∧
    ¬ DeclaresOnce [file] := by
  have hdots : ∀ c ∈ [file].flatMap SourceFile.classNames, ∀ s ∈ c.relative.segments, '.' ∉ s.toList := by
    rw [classNames_same]
    decide
  refine ⟨hasNoSource_empty, ⟨registration, run_same⟩, fun honce => ?_⟩
  obtain ⟨-, -, hiff⟩ := Registration.run_succeeds_iff hasNoSource_empty [file]
  obtain ⟨-, hdisjoint⟩ := (hiff hdots).mp honce
  rw [classNames_same, aliasNames_same] at hdisjoint
  exact hdisjoint _ (List.mem_singleton_self _) (List.mem_singleton_self _)

/-- Declaring every name once is not what registration asks for. -/
theorem not_forall_run_iff_declaresOnce :
    ¬ ∀ (r : Registry) (name source : String) (f : SourceFile), r.HasNoSource → SourceFile.parse name source = .ok f →
      ((∃ s, Registration.run r [f] = .ok s) ↔ DeclaresOnce [f]) := by
  intro h
  have honce := (h .empty "T.kt" text file hasNoSource_empty parse_same).mp ⟨registration, run_same⟩
  obtain ⟨-, -, hdisjoint⟩ := (declaresOnce_iff [file]).mp honce
  rw [classNames_same, aliasNames_same] at hdisjoint
  exact hdisjoint _ (List.mem_singleton_self _) (List.mem_singleton_self _)

end ClassAndAlias

end ServiceCatalog
