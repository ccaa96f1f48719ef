import ServiceCatalog.Proofs.Registry.Hierarchy
import ServiceCatalog.Proofs.Registry.PackageTree
import ServiceCatalog.Registry.Basic

/-!
# Look-ups after a change

A registry is described by its look-ups of classes and of type aliases.  An entry has a place: its package
and its name in there, as the tables of the package spell it.  Storing an entry changes the look-ups at its
own place and at no other.

* `class?_putClass`, `alias?_putAlias`, `alias?_linkAlias?`: what the operations do to the look-ups.
* `Registry.SameLookups`: two registries that cannot be told apart by looking names up.
* `Registry.Alike`: two registries that cannot be told apart at all, since their supertypes agree too.
-/

namespace ServiceCatalog

/-- Where the entry of a class is kept: its package, and the text of its path there. -/
def ClassName.place (c : ClassName) : DottedName × String := (c.package, c.relative.text)

/-- Where the entry of a type alias is kept: its package, and its short name. -/
def DottedName.place (n : DottedName) : DottedName × String := (n.parent, n.shortName)

namespace Registry

variable (r : Registry)

/-- Type aliases with one place have one entry. -/
theorem alias?_eq_of_place {n m : DottedName} (h : n.place = m.place) : r.alias? n = r.alias? m := by
  obtain ⟨hp, hs⟩ := Prod.mk.inj h
  rw [alias?, alias?, hp, hs]

/-! ## Packages -/

/-- A changed package, the packages on the way to it, and all others. -/
theorem package?_changePackage (path q : List String) (f : Package → Package) :
    (r.changePackage path f).package? q =
      if q = path then some (f ((r.package? path).getD .empty))
      else if q <+: path then some ((r.package? q).getD .empty) else r.package? q := by
  show ((r.packages.ensure .empty path).2.modify f (r.packages.ensure .empty path).1).at? q = _
  rw [PackageTree.at?_modify f (PackageTree.find?_ensure .empty path), PackageTree.at?_ensure]
  by_cases hq : q = path
  · subst hq
    simp [package?, PackageTree.at?]
  · simp [hq, package?, PackageTree.at?]

/-- Every way of looking into a package by its path sees a change of another package only if an empty
package differs from a missing one. -/
theorem bind_package?_changePackage {β : Type} {look : Package → Option β} (hempty : look .empty = none)
    (path q : List String) (f : Package → Package) :
    ((r.changePackage path f).package? q).bind look =
      if q = path then look (f ((r.package? path).getD .empty)) else (r.package? q).bind look := by
  rw [package?_changePackage]
  by_cases hq : q = path
  · simp [hq]
  · rw [if_neg hq, if_neg hq]
    split
    · cases r.package? q with
      | none => simp [hempty]
      | some p => rfl
    · rfl

theorem class?_changePackage (path : List String) (f : Package → Package) (c : ClassName) :
    (r.changePackage path f).class? c =
      if c.package.segments = path then
        (f ((r.package? path).getD .empty)).classes.find? c.relative.text
      else r.class? c :=
  r.bind_package?_changePackage rfl path c.package.segments f

theorem alias?_changePackage (path : List String) (f : Package → Package) (n : DottedName) :
    (r.changePackage path f).alias? n =
      if n.parent.segments = path then
        (f ((r.package? path).getD .empty)).aliases.find? n.shortName
      else r.alias? n :=
  r.bind_package?_changePackage rfl path n.parent.segments f

/-- A change that keeps the classes of a package keeps all classes. -/
theorem class?_changePackage_of_classes {f : Package → Package} (hf : ∀ p, (f p).classes = p.classes)
    (path : List String) (c : ClassName) : (r.changePackage path f).class? c = r.class? c := by
  rw [class?_changePackage]
  split
  · rename_i h
    rw [hf, class?, h]
    cases r.package? path <;> rfl
  · rfl

/-- A change that keeps the type aliases of a package keeps all type aliases. -/
theorem alias?_changePackage_of_aliases {f : Package → Package} (hf : ∀ p, (f p).aliases = p.aliases)
    (path : List String) (n : DottedName) : (r.changePackage path f).alias? n = r.alias? n := by
  rw [alias?_changePackage]
  split
  · rename_i h
    rw [hf, alias?, h]
    cases r.package? path <;> rfl
  · rfl

/-! ## Entries -/

theorem class?_putClass (e : ClassEntry) (c : ClassName) :
    (r.putClass e).class? c = if c.place = e.name.place then some e else r.class? c := by
  show (r.storeClass e).class? c = _
  rw [storeClass, class?_changePackage, Table.find?_insert, class?]
  by_cases hp : c.package = e.name.package
  · by_cases hn : c.relative.text = e.name.relative.text
    · simp [ClassName.place, hp, hn]
    · have hold : ((r.package? e.name.package.segments).getD .empty).classes.find? c.relative.text =
          (r.package? e.name.package.segments).bind fun p => p.classes.find? c.relative.text := by
        cases r.package? e.name.package.segments <;> rfl
      simp [ClassName.place, hp, hn, hold]
  · have hs : c.package.segments ≠ e.name.package.segments := fun h => hp (DottedName.segments_inj.mp h)
    simp [ClassName.place, hp, hs]

theorem alias?_putClass (e : ClassEntry) (n : DottedName) : (r.putClass e).alias? n = r.alias? n := by
  show (r.storeClass e).alias? n = _
  rw [storeClass, alias?_changePackage_of_aliases]
  intro p
  rfl

/-- Replacing the entry of a type alias changes the look-up at its place only. -/
theorem alias?_changePackage_insert (name : DottedName) (e : AliasEntry) (n : DottedName) :
    (r.changePackage name.parent.segments fun p =>
        { p with aliases := p.aliases.insert name.shortName e }).alias? n =
      if n.place = name.place then some e else r.alias? n := by
  rw [alias?_changePackage, Table.find?_insert, alias?]
  by_cases hp : n.parent = name.parent
  · by_cases hn : n.shortName = name.shortName
    · simp [DottedName.place, hp, hn]
    · have hold : ((r.package? name.parent.segments).getD .empty).aliases.find? n.shortName =
          (r.package? name.parent.segments).bind fun p => p.aliases.find? n.shortName := by
        cases r.package? name.parent.segments <;> rfl
      simp [DottedName.place, hp, hn, hold]
  · have hs : n.parent.segments ≠ name.parent.segments := fun h => hp (DottedName.segments_inj.mp h)
    simp [DottedName.place, hp, hs]

theorem alias?_putAlias (e : AliasEntry) (n : DottedName) :
    (r.putAlias e).alias? n = if n.place = e.name.place then some e else r.alias? n :=
  r.alias?_changePackage_insert e.name e n

theorem class?_putAlias (e : AliasEntry) (c : ClassName) : (r.putAlias e).class? c = r.class? c := by
  rw [putAlias, class?_changePackage_of_classes]
  intro p
  rfl

variable {r}

theorem class?_linkAlias? {r' : Registry} {name target : DottedName} (h : r.linkAlias? name target = some r')
    (c : ClassName) : r'.class? c = r.class? c := by
  obtain ⟨e, -, rfl⟩ := Option.map_eq_some_iff.mp h
  rw [class?_changePackage_of_classes]
  intro p
  rfl

/-- Linking a type alias sets the target of the alias at its place. -/
theorem alias?_linkAlias? {r' : Registry} {name target : DottedName} (h : r.linkAlias? name target = some r')
    (n : DottedName) :
    r'.alias? n = if n.place = name.place then (r.alias? n).map ({ · with target := some target })
      else r.alias? n := by
  obtain ⟨e, he, rfl⟩ := Option.map_eq_some_iff.mp h
  rw [alias?_changePackage_insert]
  split
  · rename_i hn
    rw [r.alias?_eq_of_place hn, he]
    rfl
  · rfl

theorem hierarchy_linkAlias? {r' : Registry} {name target : DottedName}
    (h : r.linkAlias? name target = some r') : r'.hierarchy = r.hierarchy := by
  obtain ⟨e, -, rfl⟩ := Option.map_eq_some_iff.mp h
  rfl

/-! ## Found classes -/

theorem mem_allData_of_package? {path : List String} {p : Package} (h : r.package? path = some p) :
    p ∈ r.packages.allData := by
  obtain ⟨node, -, hdata⟩ := Option.bind_eq_some_iff.mp h
  cases node with
  | zero => exact Option.some.inj hdata ▸ List.mem_cons_self ..
  | succ i =>
    obtain ⟨n, hn, rfl⟩ := Option.map_eq_some_iff.mp hdata
    exact List.mem_cons_of_mem _ (List.mem_map_of_mem (List.mem_of_getElem? hn))

/-- What a table of a package holds for a name is among what these tables hold. -/
theorem mem_values_of_package? {α : Type} {table : Package → Table α} {path : List String} {key : String} {a : α}
    (h : ((r.package? path).bind fun p => (table p).find? key) = some a) :
    a ∈ r.packages.allData.flatMap fun p => (table p).values := by
  obtain ⟨p, hp, ha⟩ := Option.bind_eq_some_iff.mp h
  obtain ⟨entry, hentry, rfl⟩ := Option.map_eq_some_iff.mp ha
  exact List.mem_flatMap.mpr
    ⟨p, mem_allData_of_package? hp, List.mem_map_of_mem (List.mem_of_find?_eq_some hentry)⟩

theorem mem_classes_of_class? {c : ClassName} {e : ClassEntry} (h : r.class? c = some e) : e ∈ r.classes :=
  mem_values_of_package? h

theorem mem_aliases_of_alias? {n : DottedName} {a : AliasEntry} (h : r.alias? n = some a) : a ∈ r.aliases :=
  mem_values_of_package? h

theorem exists_class?_of_findClass? {n : DottedName} {e : ClassEntry} (h : r.findClass? n = some e) :
    ∃ c, r.class? c = some e := by
  obtain ⟨c, -, hc⟩ := List.exists_of_findSome?_eq_some h
  exact ⟨c, hc⟩

theorem exists_class?_of_follow? {fuel : Nat} {passed : List DottedName} {a : AliasEntry} {e : ClassEntry}
    (h : r.follow? fuel passed a = some e) : ∃ c, r.class? c = some e := by
  induction fuel generalizing passed a with
  | zero => exact absurd h nofun
  | succ fuel ih =>
    rw [follow?] at h
    split at h
    · exact absurd h nofun
    · obtain ⟨target, -, h⟩ := Option.bind_eq_some_iff.mp h
      split at h
      · rename_i c hc
        exact Option.some.inj h ▸ exists_class?_of_findClass? hc
      · obtain ⟨b, -, hb⟩ := Option.bind_eq_some_iff.mp h
        exact ih hb

/-- What a name stands for is registered. -/
theorem exists_class?_of_classifier? {n : DottedName} {e : ClassEntry} (h : r.classifier? n = some e) :
    ∃ c, r.class? c = some e := by
  rw [classifier?, Option.orElse_eq_or, Option.or_eq_some_iff] at h
  rcases h with h | ⟨-, h⟩
  · exact exists_class?_of_findClass? h
  · obtain ⟨a, -, ha⟩ := Option.bind_eq_some_iff.mp h
    exact exists_class?_of_follow? ha

/-! ## Registries with the same look-ups -/

/-- Two registries in which every class and every type alias is looked up alike. -/
structure SameLookups (r r' : Registry) : Prop where
  class?_eq : ∀ c, r.class? c = r'.class? c
  alias?_eq : ∀ n, r.alias? n = r'.alias? n

namespace SameLookups

variable {r' r'' : Registry}

protected theorem refl (r : Registry) : SameLookups r r := ⟨fun _ => rfl, fun _ => rfl⟩

protected theorem symm (h : SameLookups r r') : SameLookups r' r :=
  ⟨fun c => (h.class?_eq c).symm, fun n => (h.alias?_eq n).symm⟩

protected theorem trans (h : SameLookups r r') (h' : SameLookups r' r'') : SameLookups r r'' :=
  ⟨fun c => (h.class?_eq c).trans (h'.class?_eq c), fun n => (h.alias?_eq n).trans (h'.alias?_eq n)⟩

theorem findClass?_eq (h : SameLookups r r') (n : DottedName) : r.findClass? n = r'.findClass? n := by
  rw [findClass?, findClass?, funext h.class?_eq]

theorem follow?_eq (h : SameLookups r r') (fuel : Nat) (passed : List DottedName) :
    r.follow? fuel passed = r'.follow? fuel passed := by
  induction fuel generalizing passed with
  | zero => rfl
  | succ fuel ih =>
    funext a
    simp only [follow?, h.findClass?_eq, h.alias?_eq, ih]

theorem classifier?_eq (h : SameLookups r r') (n : DottedName) : r.classifier? n = r'.classifier? n := by
  rw [classifier?, classifier?, h.findClass?_eq, expand?, expand?, h.alias?_eq, h.follow?_eq]

end SameLookups

/-- Two registries with the same look-ups and the same direct supertypes. -/
structure Alike (r r' : Registry) : Prop where
  lookups : r.SameLookups r'
  direct_eq : ∀ c, r.hierarchy.direct c = r'.hierarchy.direct c

namespace Alike

variable {r' r'' : Registry}

protected theorem refl (r : Registry) : Alike r r := ⟨.refl r, fun _ => rfl⟩

protected theorem symm (h : Alike r r') : Alike r' r := ⟨h.lookups.symm, fun c => (h.direct_eq c).symm⟩

protected theorem trans (h : Alike r r') (h' : Alike r' r'') : Alike r r'' :=
  ⟨h.lookups.trans h'.lookups, fun c => (h.direct_eq c).trans (h'.direct_eq c)⟩

theorem equivalence : Equivalence Alike := ⟨.refl, .symm, .trans⟩

theorem closure_eq (h : Alike r r') (c : ClassName) : r.hierarchy.closure c = r'.hierarchy.closure c :=
  Hierarchy.closure_congr h.direct_eq c

end Alike

end Registry

end ServiceCatalog
