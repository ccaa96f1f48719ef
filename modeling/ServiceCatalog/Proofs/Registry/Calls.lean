import ServiceCatalog.Proofs.Registry.Contents
import ServiceCatalog.Registry.Call

/-!
# A registry is a faithful map

A registry that is filled by calls keeps every entry in its place, so its look-ups tell what is stored and nothing
else.  This holds whatever the calls answer: a registration that is refused opens a package that is open already.

* `RegistryCall.Plain`: calls that name what they register by plain names.
* `call_of_refused`: a refused call leaves the registry as it is.
* `Kept.call`, `Kept.afterCalls`: one call, and any number of them, keep the entries in their place.
* `faithful_afterCalls`: what the look-ups of the registry behind any calls tell.
-/

namespace ServiceCatalog

namespace Registry

variable {r : Registry}

/-! ### What a call keeps -/

namespace Kept

variable (h : r.Kept)

include h

theorem registerClass {r' : Registry} {e : ClassEntry} (he : e.name.Plain) (hr : r.registerClass e = .ok r') :
    r'.Kept := by
  rw [Registry.registerClass] at hr
  split at hr
  · exact absurd hr nofun
  · exact Except.ok.inj hr ▸ h
  · exact Except.ok.inj hr ▸ h.putClass he

theorem registerAlias {r' : Registry} {a : AliasEntry} (ha : a.name.Plain) (hr : r.registerAlias a = .ok r') :
    r'.Kept := by
  rw [Registry.registerAlias] at hr
  split at hr
  · exact absurd hr nofun
  · exact Except.ok.inj hr ▸ h.putAlias ha

/-- A linked alias takes the place of the one that it links. -/
theorem linkAlias? {r' : Registry} {name target : DottedName} (hr : r.linkAlias? name target = some r') :
    r'.Kept := by
  obtain ⟨a, ha, rfl⟩ := Option.map_eq_some_iff.mp hr
  obtain ⟨-, hplace, hplain⟩ := mem_of_bind_package? (fun node p hp => (h.packages node p hp).aliases) ha
  obtain ⟨hparent, hshort⟩ := Prod.mk.inj hplace
  rw [← hparent, ← hshort]
  exact h.putAlias (a := { a with target := some target }) hplain

theorem foldl_addSupertype (sub : ClassName) (supers : List ClassName) :
    (supers.foldl (fun r super => r.addSupertype sub super) r).Kept := by
  induction supers generalizing r with
  | nil => exact h
  | cons super supers ih => exact ih (h.addSupertype sub super)

theorem registerFile {f : ClassFile} (hf : ∀ c, f.className? = some c → c.Plain) : (r.registerFile f).2.Kept := by
  rw [Registry.registerFile]
  split
  · exact h
  · next c hc =>
    have hkept := h.foldl_addSupertype c (f.supertypes.filterMap ClassName.ofInternal?)
    have hplain : c.Plain := by
      rw [newClass?] at hc
      split at hc
      · exact absurd hc nofun
      · exact hf c (Option.filter_eq_some_iff.mp hc).1
    dsimp only
    split
    · next r' hr => exact hkept.registerClass hplain hr
    · exact hkept

end Kept

end Registry

/-- A call that names what it registers by plain names. -/
def RegistryCall.Plain : RegistryCall → Prop
  | registerClass e => e.name.Plain
  | registerFile f => ∀ c, f.className? = some c → c.Plain
  | registerAlias a => a.name.Plain
  | linkAlias .. | addSupertype .. => True

namespace Registry

variable {r : Registry}

/-- A package that something is found in is open. -/
theorem openPackage_of_find? {path : List String} {node : Nat} (h : r.packages.find? path = some node) :
    r.openPackage path = r := by
  have hpackages : (r.openPackage path).packages = r.packages := by
    show (r.packages.ensure .empty path).2.modify id (r.packages.ensure .empty path).1 = r.packages
    rw [PackageTree.modify_id, PackageTree.ensure_of_find? .empty h]
  show { r with packages := (r.openPackage path).packages } = r
  rw [hpackages]

theorem openPackage_of_package? {path : List String} (h : (r.package? path).isSome) : r.openPackage path = r := by
  obtain ⟨p, hp⟩ := Option.isSome_iff_exists.mp h
  obtain ⟨node, hnode, -⟩ := Option.bind_eq_some_iff.mp hp
  exact openPackage_of_find? hnode

theorem isSome_package?_of_registerClass {e : ClassEntry} {refusal : RegistrationError}
    (h : r.registerClass e = .error refusal) : (r.package? e.name.package.segments).isSome := by
  rw [registerClass] at h
  split at h
  · next hold _ =>
    obtain ⟨e', he', -⟩ := Option.map_eq_some_iff.mp hold
    obtain ⟨p, hp, -⟩ := Option.bind_eq_some_iff.mp he'
    exact Option.isSome_of_eq_some hp
  · exact absurd h nofun
  · exact absurd h nofun

theorem isSome_package?_of_registerAlias {a : AliasEntry} {refusal : RegistrationError}
    (h : r.registerAlias a = .error refusal) : (r.package? a.name.parent.segments).isSome := by
  rw [registerAlias] at h
  split at h
  · next hold _ =>
    obtain ⟨a', ha', -⟩ := Option.map_eq_some_iff.mp hold
    obtain ⟨p, hp, -⟩ := Option.bind_eq_some_iff.mp ha'
    exact Option.isSome_of_eq_some hp
  · exact absurd h nofun

/-! ### What a refused call leaves -/

section Registered

variable {path : List String} {answer : Except RegistrationError Registry}
  (hopen : ∀ refusal, answer = .error refusal → (r.package? path).isSome)

include hopen

theorem registered_of_refused {refusal : RegistrationError} (h : (r.registered path answer).1 = .error refusal) :
    (r.registered path answer).2 = r := by
  cases hanswer : answer with
  | ok r' =>
    rw [hanswer] at h
    exact absurd h nofun
  | error refusal' => exact openPackage_of_package? (hopen refusal' hanswer)

theorem Kept.registered (h : r.Kept) (hkept : ∀ r', answer = .ok r' → r'.Kept) :
    (r.registered path answer).2.Kept := by
  cases hanswer : answer with
  | ok r' => exact hkept r' hanswer
  | error refusal =>
    show (r.openPackage path).Kept
    rw [openPackage_of_package? (hopen refusal hanswer)]
    exact h

end Registered

/-- A refused call changes nothing: the package that it opens holds the declaration that is in its way. -/
theorem call_of_refused {c : RegistryCall} {refusal : RegistrationError} (h : (r.call c).1 = .error refusal) :
    (r.call c).2 = r := by
  cases c with
  | registerClass e => exact registered_of_refused (fun _ => isSome_package?_of_registerClass) h
  | registerFile f => exact absurd h nofun
  | registerAlias a => exact registered_of_refused (fun _ => isSome_package?_of_registerAlias) h
  | linkAlias name target =>
    rw [call] at h ⊢
    cases hr : r.linkAlias? name target with
    | some r' =>
      rw [hr] at h
      exact absurd h nofun
    | none => rfl
  | addSupertype sub super => exact absurd h nofun

/-- A call keeps the entries in their place. -/
theorem Kept.call (h : r.Kept) {c : RegistryCall} (hc : c.Plain) : (r.call c).2.Kept := by
  cases c with
  | registerClass e =>
    exact h.registered (fun _ => isSome_package?_of_registerClass) fun _ => h.registerClass hc
  | registerFile f => exact h.registerFile hc
  | registerAlias a =>
    exact h.registered (fun _ => isSome_package?_of_registerAlias) fun _ => h.registerAlias hc
  | linkAlias name target =>
    rw [Registry.call]
    split
    · next r' hr => exact h.linkAlias? hr
    · exact h
  | addSupertype sub super => exact h.addSupertype sub super

/-- Any number of calls keep the entries in their place. -/
theorem Kept.afterCalls (h : r.Kept) {calls : List RegistryCall} (hcalls : ∀ c ∈ calls, c.Plain) :
    (r.afterCalls calls).Kept := by
  induction calls generalizing r with
  | nil => exact h
  | cons c calls ih =>
    obtain ⟨hc, hrest⟩ := List.forall_mem_cons.mp hcalls
    exact ih (h.call hc) hrest

/-! ### What the look-ups tell -/

/-- Whether the look-ups of a registry tell what is stored in it, and nothing else. -/
structure Faithful (r : Registry) : Prop where
  /-- A class lies in the package that its name says, under its path of nested classes. -/
  class_place : ∀ node p, r.packages.data? node = some p → ∀ x ∈ p.classes.entries,
    r.packages.find? x.2.name.package.segments = some node ∧ x.1 = x.2.name.relative.text
  classCount : r.classCount = r.classes.length
  class?_iff : ∀ c : ClassName, c.Plain → ∀ e, r.class? c = some e ↔ e ∈ r.classes ∧ e.name = c
  /-- A class is found for a dotted name exactly if one that has it is stored. -/
  isSome_findClass?_iff : ∀ n : DottedName, n.Plain → ((r.findClass? n).isSome ↔ ∃ e, r.Stores n e)
  /-- It is the one with the longest package then. -/
  findClass?_iff : ∀ n : DottedName, n.Plain → ∀ e, r.findClass? n = some e ↔
    r.Stores n e ∧ ∀ e', r.Stores n e' → e'.name.package.size ≤ e.name.package.size
  alias?_iff : ∀ n : DottedName, n.Plain → ∀ a, r.alias? n = some a ↔ a ∈ r.aliases ∧ a.name = n

theorem Kept.faithful (h : r.Kept) : r.Faithful where
  class_place node p hp x hx := by
    obtain ⟨hnode, hkey, -⟩ := (h.packages node p hp).classes.entries x hx
    exact ⟨hnode, hkey.symm⟩
  classCount := h.classCount
  class?_iff _ hc _ := h.class?_eq_some_iff hc
  isSome_findClass?_iff _ hn := h.isSome_findClass?_iff hn
  findClass?_iff _ hn _ := h.findClass?_eq_some_iff hn
  alias?_iff _ hn _ := h.alias?_eq_some_iff hn

/-- The registry behind any calls is faithful, and a further call that is refused leaves it as it is. -/
theorem faithful_afterCalls {calls : List RegistryCall} (hcalls : ∀ c ∈ calls, c.Plain) :
    (empty.afterCalls calls).Faithful ∧
      ∀ c refusal, ((empty.afterCalls calls).call c).1 = .error refusal →
        ((empty.afterCalls calls).call c).2 = empty.afterCalls calls :=
  ⟨(Kept.empty.afterCalls hcalls).faithful, fun _ _ => call_of_refused⟩

/-- Calls of every kind, among them one that replaces a class. -/
theorem faithful_afterCalls_each :
    (empty.afterCalls [.registerClass ⟨⟨⟨["a"]⟩, ⟨["B", "C"]⟩⟩, .class, .classPath⟩,
      .registerClass ⟨⟨⟨["a"]⟩, ⟨["B", "C"]⟩⟩, .interface, .source⟩, .registerAlias ⟨⟨["a", "T"]⟩, none, .source⟩,
      .linkAlias ⟨["a", "T"]⟩ ⟨["a", "D"]⟩, .registerFile ⟨0, "a/D", some "a/B$C", [], [], []⟩,
      .addSupertype ⟨⟨["a"]⟩, ⟨["B"]⟩⟩ ⟨⟨["a"]⟩, ⟨["D"]⟩⟩]).Faithful := by
  have hfile : ClassFile.className? ⟨0, "a/D", some "a/B$C", [], [], []⟩ = some ⟨⟨["a"]⟩, ⟨["D"]⟩⟩ := by decide
  refine (faithful_afterCalls ?_).1
  simp [RegistryCall.Plain, ClassName.Plain, DottedName.Plain, hfile]

/-- A class that has no name of its own in its package is stored, but not found for its dotted name. -/
theorem not_forall_isSome_findClass?_iff :
    ¬ ∀ calls : List RegistryCall, (∀ c ∈ calls, c.Plain) → ∀ n : DottedName, n.Plain →
      (((empty.afterCalls calls).findClass? n).isSome ↔
        ∃ e ∈ (empty.afterCalls calls).classes, e.name.dotted = n) := by
  intro h
  have hiff := h [.registerClass ⟨⟨⟨["a", "b"]⟩, .root⟩, .class, .source⟩]
    (by simp [RegistryCall.Plain, ClassName.Plain, DottedName.Plain]) ⟨["a", "b"]⟩ (by simp [DottedName.Plain])
  have hstored := hiff.mpr ⟨⟨⟨⟨["a", "b"]⟩, .root⟩, .class, .source⟩, by decide, rfl⟩
  exact absurd hstored (by decide)

end Registry

end ServiceCatalog
