import ServiceCatalog.Proofs.Name.Written
import ServiceCatalog.Proofs.Registry.Lookup

/-!
# What a registry holds

An entry is stored in a table of a package, under a key.  In a registry whose entries have plain names and stand in
their place, the look-ups are exact: what is stored under a name is what is found for it.

* `Table.Holds`: what every entry of a table has, where no key occurs twice.
* `Registry.Kept`: every entry stands in the package that its name says and under its own key, and the classes are
  counted.  `kept_changePackage`, `Kept.putClass`, `Kept.putAlias` say that changes keep this.
* `Kept.class?_eq_some_iff`, `Kept.alias?_eq_some_iff`, `Kept.findClass?_eq_some_iff`: the look-ups of such a registry.
-/

namespace ServiceCatalog

/-! ## Tables -/

namespace Table

variable {α : Type} {t : Table α} {P Q : String → α → Prop} {key : String} {a : α}

/-- Whether every entry of a table has a property, and no key occurs twice. -/
structure Holds (t : Table α) (P : String → α → Prop) : Prop where
  keys_nodup : (t.entries.map Prod.fst).Nodup
  entries : ∀ x ∈ t.entries, P x.1 x.2

protected theorem Holds.empty : (empty : Table α).Holds P :=
  ⟨List.nodup_nil, fun _ hx => absurd hx List.not_mem_nil⟩

protected theorem Holds.mono (h : t.Holds P) (hPQ : ∀ key a, P key a → Q key a) : t.Holds Q :=
  ⟨h.keys_nodup, fun x hx => hPQ x.1 x.2 (h.entries x hx)⟩

theorem mem_of_find? (h : t.find? key = some a) : (key, a) ∈ t.entries := by
  obtain ⟨x, hx, rfl⟩ := Option.map_eq_some_iff.mp h
  obtain rfl : x.1 = key := by simpa using List.find?_some hx
  exact List.mem_of_find?_eq_some hx

/-- An entry is what its key is looked up as. -/
theorem Holds.find?_eq_some_iff (h : t.Holds P) : t.find? key = some a ↔ (key, a) ∈ t.entries := by
  refine ⟨mem_of_find?, fun hmem => ?_⟩
  obtain ⟨entries⟩ := t
  obtain ⟨hnodup, -⟩ := h
  simp only [find?] at hmem hnodup ⊢
  induction entries with
  | nil => exact absurd hmem List.not_mem_nil
  | cons x xs ih =>
    obtain ⟨hx, hxs⟩ := List.nodup_cons.mp hnodup
    rcases List.mem_cons.mp hmem with rfl | hmem
    · simp
    · have hne : x.1 ≠ key := by
        rintro rfl
        exact hx (List.mem_map.mpr ⟨_, hmem, rfl⟩)
      rw [List.find?_cons_of_neg (by simpa using hne)]
      exact ih hmem hxs

theorem mem_insertInto {l : List (String × α)} {x : String × α} (h : x ∈ insertInto key a l) :
    x = (key, a) ∨ x ∈ l := by
  induction l with
  | nil => exact .inl (List.mem_singleton.mp h)
  | cons y ys ih =>
    rw [insertInto] at h
    split at h
    · exact (List.mem_cons.mp h).imp id (List.mem_cons_of_mem y)
    · rcases List.mem_cons.mp h with rfl | h
      · exact .inr (List.mem_cons_self ..)
      · exact (ih h).imp id (List.mem_cons_of_mem y)

theorem nodup_insertInto {l : List (String × α)} (h : (l.map Prod.fst).Nodup) :
    ((insertInto key a l).map Prod.fst).Nodup := by
  induction l with
  | nil => exact List.nodup_cons.mpr ⟨List.not_mem_nil, List.nodup_nil⟩
  | cons y ys ih =>
    obtain ⟨hy, hys⟩ := List.nodup_cons.mp h
    rw [insertInto]
    split
    · next hkey => exact hkey ▸ h
    · next hkey =>
      refine List.nodup_cons.mpr ⟨fun hmem => ?_, ih hys⟩
      obtain ⟨x, hx, hfst⟩ := List.mem_map.mp hmem
      rcases mem_insertInto hx with rfl | hx
      · exact hkey hfst.symm
      · exact hy (List.mem_map.mpr ⟨x, hx, hfst⟩)

/-- An insertion keeps what holds of the other entries. -/
protected theorem Holds.insert (h : t.Holds P) (ha : P key a) : (t.insert key a).Holds P := by
  refine ⟨nodup_insertInto h.keys_nodup, fun x hx => ?_⟩
  rcases mem_insertInto hx with rfl | hx
  · exact ha
  · exact h.entries x hx

/-- An insertion adds a value unless it replaces one. -/
theorem length_values_insert (t : Table α) (key : String) (a : α) :
    (t.insert key a).values.length = if (t.find? key).isSome then t.values.length else t.values.length + 1 := by
  obtain ⟨entries⟩ := t
  simp only [values, insert, find?, List.length_map, Option.isSome_map]
  induction entries with
  | nil => rfl
  | cons y ys ih =>
    rw [insertInto]
    by_cases hkey : y.1 = key
    · simp [hkey]
    · rw [if_neg hkey, List.length_cons, ih, List.find?_cons_of_neg (by simpa using hkey)]
      split <;> rfl

end Table

/-! ## Entries in their place -/

theorem DottedName.root_or_child (n : DottedName) : n = root ∨ ∃ m s, n = child m s := by
  obtain ⟨segments⟩ := n
  rcases List.eq_nil_or_concat segments with rfl | ⟨l, s, rfl⟩
  · exact .inl rfl
  · exact .inr ⟨⟨l⟩, s, by simp [child]⟩

/-- A class whose package and path are plain names. -/
def ClassName.Plain (c : ClassName) : Prop := c.package.Plain ∧ c.relative.Plain

theorem ClassName.Plain.place_inj {c d : ClassName} (hc : c.Plain) (hd : d.Plain) : c.place = d.place ↔ c = d := by
  refine ⟨fun h => ?_, congrArg ClassName.place⟩
  obtain ⟨hpackage, htext⟩ := Prod.mk.inj h
  exact ClassName.eq_of_halves hpackage ((hc.2.text_inj hd.2).mp htext)

theorem DottedName.Plain.place_inj {n m : DottedName} (hn : n.Plain) (hm : m.Plain) :
    n.place = m.place ↔ n = m := by
  refine ⟨fun h => ?_, congrArg DottedName.place⟩
  obtain ⟨hparent, hshort⟩ := Prod.mk.inj h
  rcases n.root_or_child with rfl | ⟨n, s, rfl⟩ <;> rcases m.root_or_child with rfl | ⟨m, t, rfl⟩
  · rfl
  · exact absurd ((shortName_child m t).symm.trans hshort.symm) (hm t (by simp)).1
  · exact absurd ((shortName_child n s).symm.trans hshort) (hn s (by simp)).1
  · rw [parent_child, parent_child] at hparent
    rw [shortName_child, shortName_child] at hshort
    rw [hparent, hshort]

/-- Whether the entries of a table are plain ones whose place is their key in a package of a tree. -/
def Table.StandsIn {α : Type} (table : Table α) (t : PackageTree Package) (node : Nat)
    (place : α → DottedName × String) (plain : α → Prop) : Prop :=
  table.Holds fun key a => t.find? (place a).1.segments = some node ∧ (place a).2 = key ∧ plain a

/-- Whether the entries of a package stand in their place. -/
structure Package.Kept (p : Package) (t : PackageTree Package) (node : Nat) : Prop where
  classes : p.classes.StandsIn t node (fun e => e.name.place) fun e => e.name.Plain
  aliases : p.aliases.StandsIn t node (fun a => a.name.place) fun a => a.name.Plain

namespace Package.Kept

variable {p : Package} {t t' : PackageTree Package} {node : Nat}

protected theorem empty : Package.empty.Kept t node := ⟨.empty, .empty⟩

/-- Packages keep their entries when no path is lost. -/
protected theorem mono (h : p.Kept t node) (hpaths : ∀ q m, t.find? q = some m → t'.find? q = some m) :
    p.Kept t' node :=
  ⟨h.classes.mono fun _ _ he => ⟨hpaths _ _ he.1, he.2⟩, h.aliases.mono fun _ _ ha => ⟨hpaths _ _ ha.1, ha.2⟩⟩

theorem insertClass (h : p.Kept t node) {e : ClassEntry} (he : e.name.Plain)
    (hnode : t.find? e.name.package.segments = some node) :
    Kept { p with classes := p.classes.insert e.name.relative.text e } t node :=
  ⟨h.classes.insert ⟨hnode, rfl, he⟩, h.aliases⟩

theorem insertAlias (h : p.Kept t node) {a : AliasEntry} (ha : a.name.Plain)
    (hnode : t.find? a.name.parent.segments = some node) :
    Kept { p with aliases := p.aliases.insert a.name.shortName a } t node :=
  ⟨h.classes, h.aliases.insert ⟨hnode, rfl, ha⟩⟩

end Package.Kept

namespace Registry

variable {r : Registry}

/-- Whether every package of a registry keeps its entries in their place, and the classes are counted. -/
structure Kept (r : Registry) : Prop where
  packages : ∀ node p, r.packages.data? node = some p → p.Kept r.packages node
  classCount : r.classCount = r.classes.length

/-! ### What a change keeps -/

/-- A change of a package that keeps the entries in their place keeps those of the others as well. -/
theorem kept_changePackage (h : ∀ node p, r.packages.data? node = some p → p.Kept r.packages node)
    {path : List String} {f : Package → Package}
    (hf : ∀ t node p, PackageTree.find? t path = some node → p.Kept t node → (f p).Kept t node) (node : Nat)
    (p : Package) (hp : (r.changePackage path f).packages.data? node = some p) :
    p.Kept (r.changePackage path f).packages node := by
  obtain ⟨k, hk⟩ := r.packages.allData_ensure .empty path
  have hopen : ∀ m q, (r.packages.ensure .empty path).2.data? m = some q →
      q.Kept (r.changePackage path f).packages m := by
    intro m q hq
    have hkept : q.Kept (r.packages.ensure .empty path).2 m := by
      rw [PackageTree.data?_eq_getElem?, hk, List.getElem?_append] at hq
      split at hq
      · have hold := h m q ((PackageTree.data?_eq_getElem? m).trans hq)
        exact hold.mono fun path' m' => PackageTree.find?_ensure_of_find? Package.empty path
      · rw [List.getElem?_replicate] at hq
        split at hq
        · exact Option.some.inj hq ▸ .empty
        · exact absurd hq nofun
    exact hkept.mono fun path' m' hm' => (PackageTree.find?_modify f _ path').trans hm'
  have hdata : (r.changePackage path f).packages.data? node =
      if node = (r.packages.ensure .empty path).1 then
        ((r.packages.ensure .empty path).2.data? node).map f
      else (r.packages.ensure .empty path).2.data? node := PackageTree.data?_modify f _ node
  rw [hdata] at hp
  split at hp
  · next hnode =>
    obtain ⟨q, hq, rfl⟩ := Option.map_eq_some_iff.mp hp
    refine hf _ node q ?_ (hopen node q hq)
    exact (PackageTree.find?_modify f _ path).trans (hnode ▸ PackageTree.find?_ensure Package.empty path)
  · exact hopen node p hp

/-- What the packages hold changes at one of them. -/
theorem flatMap_changePackage {β : Type} (r : Registry) (look : Package → List β) (hempty : look .empty = [])
    (path : List String) (f : Package → Package) : ∃ before after,
      r.packages.allData.flatMap look = before ++ look ((r.package? path).getD .empty) ++ after ∧
      (r.changePackage path f).packages.allData.flatMap look =
        before ++ look (f ((r.package? path).getD .empty)) ++ after := by
  obtain ⟨k, hk⟩ := r.packages.allData_ensure .empty path
  have hat : (r.packages.ensure .empty path).2.at? path = some ((r.packages.at? path).getD .empty) := by
    rw [PackageTree.at?_ensure, if_pos List.prefix_rfl]
  rw [PackageTree.at?, PackageTree.find?_ensure, Option.bind_some, PackageTree.data?_eq_getElem?] at hat
  obtain ⟨hlt, hget⟩ := List.getElem?_eq_some_iff.mp hat
  have hsame : r.packages.allData.flatMap look = (r.packages.ensure .empty path).2.allData.flatMap look := by
    rw [hk, List.flatMap_append]
    simp [hempty]
  have hchanged : (r.changePackage path f).packages.allData =
      (r.packages.ensure .empty path).2.allData.modify (r.packages.ensure .empty path).1 f :=
    PackageTree.allData_modify f _
  rw [hsame, hchanged]
  generalize (r.packages.ensure .empty path).2.allData = all at hlt hget
  generalize (r.packages.ensure .empty path).1 = node at hlt hget
  have hsplit : all = all.take node ++ (r.package? path).getD .empty :: all.drop (node + 1) := by
    show all = all.take node ++ (r.packages.at? path).getD .empty :: all.drop (node + 1)
    rw [← hget, ← List.drop_eq_getElem_cons hlt, List.take_append_drop]
  refine ⟨(all.take node).flatMap look, (all.drop (node + 1)).flatMap look, ?_, ?_⟩
  · conv_lhs => rw [hsplit]
    rw [List.flatMap_append, List.flatMap_cons, List.append_assoc]
  · rw [List.modify_eq_take_cons_drop hlt, hget, List.flatMap_append, List.flatMap_cons, List.append_assoc]
    rfl

/-! ### What an entry adds -/

theorem length_classes_putClass (r : Registry) (e : ClassEntry) :
    (r.putClass e).classes.length =
      if (r.class? e.name).isSome then r.classes.length else r.classes.length + 1 := by
  obtain ⟨before, after, hold, hnew⟩ := r.flatMap_changePackage (fun p => p.classes.values) rfl
    e.name.package.segments fun p => { p with classes := p.classes.insert e.name.relative.text e }
  have hlook : r.class? e.name =
      ((r.package? e.name.package.segments).getD .empty).classes.find? e.name.relative.text := by
    rw [class?]
    cases r.package? e.name.package.segments <;> rfl
  have hclasses : r.classes = before ++ _ ++ after := hold
  have hput : (r.putClass e).classes = before ++ _ ++ after := hnew
  simp only [hclasses, hput, List.length_append, Table.length_values_insert, hlook]
  split <;> omega

/-- A change that keeps the classes of a package keeps their number. -/
theorem length_classes_changePackage (f : Package → Package) (hf : ∀ p, (f p).classes = p.classes)
    (path : List String) : (r.changePackage path f).classes.length = r.classes.length := by
  obtain ⟨before, after, hold, hnew⟩ := r.flatMap_changePackage (fun p => p.classes.values) rfl path f
  have hclasses : r.classes = before ++ _ ++ after := hold
  have hchanged : (r.changePackage path f).classes = before ++ _ ++ after := hnew
  rw [hclasses, hchanged, hf]

namespace Kept

protected theorem empty : Kept .empty := by
  refine ⟨fun node p hp => ?_, rfl⟩
  cases node with
  | zero => exact Option.some.inj hp ▸ .empty
  | succ i => exact absurd hp (by simp [empty, PackageTree.single, PackageTree.data?])

theorem putClass (h : r.Kept) {e : ClassEntry} (he : e.name.Plain) : (r.putClass e).Kept := by
  constructor
  · exact kept_changePackage h.packages fun t node p hnode hp => hp.insertClass he hnode
  · rw [length_classes_putClass, ← h.classCount]
    rfl

theorem putAlias (h : r.Kept) {a : AliasEntry} (ha : a.name.Plain) : (r.putAlias a).Kept := by
  constructor
  · exact kept_changePackage h.packages fun t node p hnode hp => hp.insertAlias ha hnode
  · have hlength : (r.putAlias a).classes.length = r.classes.length :=
      length_classes_changePackage (fun p => { p with aliases := p.aliases.insert a.name.shortName a })
        (fun _ => rfl) _
    exact h.classCount.trans hlength.symm

theorem addSupertype (h : r.Kept) (sub super : ClassName) : (r.addSupertype sub super).Kept :=
  ⟨h.packages, h.classCount⟩

end Kept

/-! ### Stored entries -/

section Tables

variable {α : Type} {table : Package → Table α} {place : α → DottedName × String} {plain : α → Prop}
  (h : ∀ node p, r.packages.data? node = some p → (table p).StandsIn r.packages node place plain)

include h

/-- A stored entry is found at its place. -/
theorem bind_package?_of_mem {a : α} (ha : a ∈ r.packages.allData.flatMap fun p => (table p).values) :
    ((r.package? (place a).1.segments).bind fun p => (table p).find? (place a).2) = some a := by
  obtain ⟨p, hp, hvalue⟩ := List.mem_flatMap.mp ha
  obtain ⟨⟨key, a'⟩, hentry, rfl⟩ := List.mem_map.mp hvalue
  obtain ⟨node, hnode⟩ := List.mem_iff_getElem?.mp hp
  have hdata : r.packages.data? node = some p := (PackageTree.data?_eq_getElem? node).trans hnode
  have hstands := h node p hdata
  obtain ⟨hfind, hkey, -⟩ := hstands.entries _ hentry
  rw [package?, hfind, Option.bind_some, hdata, Option.bind_some, hkey]
  exact hstands.find?_eq_some_iff.mpr hentry

/-- What is found at a place is a stored entry of that place. -/
theorem mem_of_bind_package? {package : DottedName} {key : String} {a : α}
    (ha : ((r.package? package.segments).bind fun p => (table p).find? key) = some a) :
    (a ∈ r.packages.allData.flatMap fun p => (table p).values) ∧ place a = (package, key) ∧ plain a := by
  obtain ⟨p, hp, hentry⟩ := Option.bind_eq_some_iff.mp ha
  obtain ⟨node, hnode, hdata⟩ := Option.bind_eq_some_iff.mp hp
  have hmem : p ∈ r.packages.allData :=
    List.mem_of_getElem? ((PackageTree.data?_eq_getElem? node).symm.trans hdata)
  have hentry := Table.mem_of_find? hentry
  obtain ⟨hfind, hkey, hplain⟩ := (h node p hdata).entries _ hentry
  have hpackage : (place a).1 = package := DottedName.segments_inj.mp (PackageTree.find?_inj hfind hnode)
  exact ⟨List.mem_flatMap.mpr ⟨p, hmem, List.mem_map_of_mem hentry⟩, Prod.ext hpackage hkey, hplain⟩

end Tables

namespace Kept

variable (h : r.Kept)

include h

/-- The entry of a class is the one stored for it. -/
theorem class?_eq_some_iff {c : ClassName} (hc : c.Plain) {e : ClassEntry} :
    r.class? c = some e ↔ e ∈ r.classes ∧ e.name = c := by
  have htables := fun node p hp => (h.packages node p hp).classes
  constructor
  · intro he
    obtain ⟨hmem, hplace, hplain⟩ := mem_of_bind_package? htables he
    exact ⟨hmem, (hplain.place_inj hc).mp hplace⟩
  · rintro ⟨he, rfl⟩
    exact bind_package?_of_mem htables he

/-- The entry of a type alias is the one stored for it. -/
theorem alias?_eq_some_iff {n : DottedName} (hn : n.Plain) {a : AliasEntry} :
    r.alias? n = some a ↔ a ∈ r.aliases ∧ a.name = n := by
  have htables := fun node p hp => (h.packages node p hp).aliases
  constructor
  · intro ha
    obtain ⟨hmem, hplace, hplain⟩ := mem_of_bind_package? htables ha
    exact ⟨hmem, (hplain.place_inj hn).mp hplace⟩
  · rintro ⟨ha, rfl⟩
    exact bind_package?_of_mem htables ha

end Kept

/-! ### Dotted names -/

/-- The cuts of a name are the classes with a name of their own that it may stand for. -/
theorem mem_cuts {n : DottedName} {c : ClassName} : c ∈ cuts n ↔ c.dotted = n ∧ c.relative ≠ .root := by
  obtain ⟨segments⟩ := n
  obtain ⟨⟨package⟩, ⟨relative⟩⟩ := c
  simp only [cuts, List.mem_map, List.mem_reverse, List.mem_range, DottedName.size, ClassName.mk.injEq,
    DottedName.mk.injEq, ClassName.dotted, DottedName.root, ne_eq]
  constructor
  · rintro ⟨i, hi, rfl, rfl⟩
    refine ⟨DottedName.segments_inj.mp (List.take_append_drop i segments), fun hnil => ?_⟩
    have hlength := congrArg List.length hnil
    simp at hlength
    omega
  · rintro ⟨hdotted, hrelative⟩
    obtain rfl : package ++ relative = segments := DottedName.segments_inj.mpr hdotted
    have hpos := List.length_pos_iff.mpr hrelative
    exact ⟨package.length, by simp; omega, by simp, by simp⟩

/-- The cuts of a name come with ever shorter packages. -/
theorem pairwise_cuts (n : DottedName) : (cuts n).Pairwise fun c d => d.package.size < c.package.size := by
  rw [cuts, List.pairwise_map, List.pairwise_reverse]
  refine List.Pairwise.imp_of_mem ?_ List.pairwise_lt_range
  intro i j hi hj hlt
  rw [List.mem_range] at hi hj
  show (n.segments.take i).length < (n.segments.take j).length
  simp only [List.length_take, DottedName.size] at hi hj ⊢
  omega

theorem plain_of_mem_cuts {n : DottedName} (hn : n.Plain) {c : ClassName} (hc : c ∈ cuts n) : c.Plain := by
  obtain ⟨rfl, -⟩ := mem_cuts.mp hc
  exact ⟨fun s hs => hn s (List.mem_append_left _ hs), fun s hs => hn s (List.mem_append_right _ hs)⟩

/-- Whether a stored class has a given dotted name, and a name of its own in its package. -/
def Stores (r : Registry) (n : DottedName) (e : ClassEntry) : Prop :=
  e ∈ r.classes ∧ e.name.dotted = n ∧ e.name.relative ≠ .root

namespace Kept

variable (h : r.Kept) {n : DottedName} (hn : n.Plain) {e : ClassEntry}

include h hn

/-- A class that has a dotted name is stored for one of the cuts of the name. -/
theorem stores_iff : r.Stores n e ↔ e.name ∈ cuts n ∧ r.class? e.name = some e := by
  rw [Stores, ← mem_cuts, and_comm]
  exact and_congr_right fun hcut => by rw [h.class?_eq_some_iff (plain_of_mem_cuts hn hcut), and_iff_left rfl]

/-- The class that is found for a dotted name has it, and no other one has a longer package. -/
theorem longest_of_findClass? (he : r.findClass? n = some e) :
    r.Stores n e ∧ ∀ e', r.Stores n e' → e'.name.package.size ≤ e.name.package.size := by
  obtain ⟨longer, c, shorter, hsplit, hc, hlonger⟩ := List.findSome?_eq_some_iff.mp he
  have hcut : c ∈ cuts n := hsplit ▸ List.mem_append_right _ (List.mem_cons_self ..)
  obtain ⟨-, rfl⟩ := (h.class?_eq_some_iff (plain_of_mem_cuts hn hcut)).mp hc
  refine ⟨(h.stores_iff hn).mpr ⟨hcut, hc⟩, fun e' he' => ?_⟩
  obtain ⟨hcut', hclass'⟩ := (h.stores_iff hn).mp he'
  have hpairwise := pairwise_cuts n
  rw [hsplit] at hcut' hpairwise
  rcases List.mem_append.mp hcut' with hmem | hmem
  · exact absurd (hlonger _ hmem) (by simp [hclass'])
  · rcases List.mem_cons.mp hmem with heq | hmem
    · exact heq ▸ Nat.le_refl _
    · exact Nat.le_of_lt (List.rel_of_pairwise_cons (List.pairwise_append.mp hpairwise).2.1 hmem)

/-- A class is found for a dotted name if one that has it is stored. -/
theorem isSome_findClass?_iff : (r.findClass? n).isSome ↔ ∃ e, r.Stores n e := by
  constructor
  · intro hsome
    obtain ⟨e, he⟩ := Option.isSome_iff_exists.mp hsome
    exact ⟨e, (h.longest_of_findClass? hn he).1⟩
  · rintro ⟨e, he⟩
    obtain ⟨hcut, hclass⟩ := (h.stores_iff hn).mp he
    exact List.findSome?_isSome_iff.mpr ⟨_, hcut, Option.isSome_of_eq_some hclass⟩

/-- The class that is found for a dotted name is the stored one with the longest package. -/
theorem findClass?_eq_some_iff :
    r.findClass? n = some e ↔
      r.Stores n e ∧ ∀ e', r.Stores n e' → e'.name.package.size ≤ e.name.package.size := by
  refine ⟨h.longest_of_findClass? hn, fun ⟨hstored, hlongest⟩ => ?_⟩
  obtain ⟨e₀, he₀⟩ := Option.isSome_iff_exists.mp ((h.isSome_findClass?_iff hn).mpr ⟨e, hstored⟩)
  obtain ⟨hstored₀, hlongest₀⟩ := h.longest_of_findClass? hn he₀
  -- Cuts with packages of one size are one cut.
  have hsize : e₀.name.package.size = e.name.package.size :=
    Nat.le_antisymm (hlongest e₀ hstored₀) (hlongest₀ e hstored)
  have hname : e₀.name = e.name := by
    have hdotted : e₀.name.dotted = e.name.dotted := hstored₀.2.1.trans hstored.2.1.symm
    obtain ⟨hpackage, hrelative⟩ := List.append_inj (DottedName.segments_inj.mpr hdotted) hsize
    exact ClassName.eq_of_halves (DottedName.segments_inj.mp hpackage) (DottedName.segments_inj.mp hrelative)
  have hclass := ((h.stores_iff hn).mp hstored).2
  have hclass₀ := ((h.stores_iff hn).mp hstored₀).2
  rw [he₀, ← hclass₀, hname, hclass]

end Kept

end Registry

end ServiceCatalog
