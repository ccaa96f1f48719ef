import ServiceCatalog.Proofs.Chain
import ServiceCatalog.Proofs.Registry.Lookup
import ServiceCatalog.Source.Registration

/-!
# What registration does

Registering sources is one chain of steps, each of which stores the entry of a type alias or of a class
unless a source entry is at its place.  So registration is described by one condition on the declarations
and by the look-ups it leads to.

* `foldlM_register_eq_ok_iff`: registration succeeds exactly if no declaration meets a source entry at its
  place and no two declarations have one place; the result is then every entry stored.
* `class?_of_registerSources`: a declared class is found afterwards under its own entry.
* `registerSources_perm`: the order of the declarations does not matter.
-/

namespace ServiceCatalog

/-- The entry of a class of the sources. -/
def Declared.entry (d : Declared) : ClassEntry := ⟨d.name, d.kind.entryKind, .source⟩

/-- The entry of a type alias of the sources, before it is linked. -/
def DeclaredAlias.entry (a : DeclaredAlias) : AliasEntry := ⟨a.name, none, .source⟩

/-- The type aliases and the classes of a file, in the order of their registration. -/
def SourceFile.entries (f : SourceFile) : List (DeclaredAlias ⊕ Declared) :=
  f.declaredAliases.map .inl ++ f.declared.map .inr

/-- Whether two declarations are kept at one place; type aliases and classes have places of their own. -/
def SamePlace : DeclaredAlias ⊕ Declared → DeclaredAlias ⊕ Declared → Prop
  | .inl a, .inl b => a.name.place = b.name.place
  | .inr c, .inr d => c.name.place = d.name.place
  | .inl _, .inr _ => False
  | .inr _, .inl _ => False

theorem SamePlace.symm {x y : DeclaredAlias ⊕ Declared} (h : SamePlace x y) : SamePlace y x := by
  cases x <;> cases y <;> first | exact Eq.symm h | exact h

namespace Registry

variable {r r' : Registry}

/-! ## One declaration -/

/-- Registers a type alias or a class of a source file. -/
def register (r : Registry) : DeclaredAlias ⊕ Declared → Except RegistrationError Registry
  | .inl a => r.registerDeclaredAlias a
  | .inr d => r.registerDeclared d

/-- Stores the entry of a type alias or of a class of a source file. -/
def put (r : Registry) : DeclaredAlias ⊕ Declared → Registry
  | .inl a => r.putAlias a.entry
  | .inr d => r.putClass d.entry

/-- Whether a source entry is at the place of a declaration. -/
def IsTaken (r : Registry) : DeclaredAlias ⊕ Declared → Prop
  | .inl a => (r.alias? a.name).map AliasEntry.origin = some .source
  | .inr d => (r.class? d.name).map ClassEntry.origin = some .source

theorem registerDeclared_eq_ok_iff {d : Declared} :
    r.registerDeclared d = .ok r' ↔ ¬ r.IsTaken (.inr d) ∧ r.putClass d.entry = r' := by
  show r.registerClass d.entry = .ok r' ↔ ¬ (r.class? d.name).map ClassEntry.origin = some .source ∧ _
  have hname : d.entry.name = d.name := rfl
  rw [registerClass, hname]
  cases (r.class? d.name).map ClassEntry.origin with
  | none => simp [Declared.entry]
  | some origin => cases origin <;> simp [Declared.entry]

theorem registerDeclaredAlias_eq_ok_iff {a : DeclaredAlias} :
    r.registerDeclaredAlias a = .ok r' ↔ ¬ r.IsTaken (.inl a) ∧ r.putAlias a.entry = r' := by
  show r.registerAlias a.entry = .ok r' ↔ ¬ (r.alias? a.name).map AliasEntry.origin = some .source ∧ _
  have hname : a.entry.name = a.name := rfl
  rw [registerAlias, hname]
  cases (r.alias? a.name).map AliasEntry.origin with
  | none => simp [DeclaredAlias.entry]
  | some origin => cases origin <;> simp [DeclaredAlias.entry]

/-- A declaration is registered unless a source entry is at its place. -/
theorem register_eq_ok_iff {x : DeclaredAlias ⊕ Declared} :
    r.register x = .ok r' ↔ ¬ r.IsTaken x ∧ r.put x = r' := by
  cases x with
  | inl a => exact registerDeclaredAlias_eq_ok_iff
  | inr d => exact registerDeclared_eq_ok_iff

@[simp] theorem hierarchy_put (x : DeclaredAlias ⊕ Declared) : (r.put x).hierarchy = r.hierarchy := by
  cases x <;> rfl

/-- Storing an entry takes its own place and no other. -/
theorem isTaken_put {x y : DeclaredAlias ⊕ Declared} :
    (r.put x).IsTaken y ↔ SamePlace x y ∨ r.IsTaken y := by
  cases x with
  | inl a =>
    cases y with
    | inl b =>
      simp only [put, IsTaken, SamePlace, alias?_putAlias]
      split
      · rename_i h
        exact ⟨fun _ => .inl h.symm, fun _ => rfl⟩
      · rename_i h
        exact ⟨.inr, fun h' => h'.resolve_left fun hab => h hab.symm⟩
    | inr d => simp only [put, IsTaken, SamePlace, class?_putAlias, false_or]
  | inr c =>
    cases y with
    | inl b => simp only [put, IsTaken, SamePlace, alias?_putClass, false_or]
    | inr d =>
      simp only [put, IsTaken, SamePlace, class?_putClass]
      split
      · rename_i h
        exact ⟨fun _ => .inl h.symm, fun _ => rfl⟩
      · rename_i h
        exact ⟨.inr, fun h' => h'.resolve_left fun hcd => h hcd.symm⟩

theorem Alike.put (h : r.Alike r') (x : DeclaredAlias ⊕ Declared) : (r.put x).Alike (r'.put x) := by
  refine ⟨⟨fun c => ?_, fun n => ?_⟩, fun c => ?_⟩
  · cases x <;> simp only [Registry.put, class?_putAlias, class?_putClass, h.lookups.class?_eq]
  · cases x <;> simp only [Registry.put, alias?_putAlias, alias?_putClass, h.lookups.alias?_eq]
  · rw [hierarchy_put, hierarchy_put, h.direct_eq]

/-- Two entries with different places can be stored in either order. -/
theorem put_comm {x y : DeclaredAlias ⊕ Declared} (r : Registry) (h : ¬ SamePlace x y) :
    ((r.put x).put y).Alike ((r.put y).put x) := by
  refine ⟨⟨fun c => ?_, fun n => ?_⟩, fun c => by simp only [hierarchy_put]⟩
  · cases x <;> cases y <;> simp only [put, class?_putAlias, class?_putClass]
    rename_i d e
    by_cases hd : c.place = d.entry.name.place
    · have he : c.place ≠ e.entry.name.place := fun he => h (hd.symm.trans he)
      rw [if_neg he, if_pos hd, if_pos hd]
    · rw [if_neg hd, if_neg hd]
  · cases x <;> cases y <;> simp only [put, alias?_putAlias, alias?_putClass]
    rename_i a b
    by_cases ha : n.place = a.entry.name.place
    · have hb : n.place ≠ b.entry.name.place := fun hb => h (ha.symm.trans hb)
      rw [if_neg hb, if_pos ha, if_pos ha]
    · rw [if_neg ha, if_neg ha]

/-! ## All declarations -/

/-- Stores several entries. -/
def putAll (r : Registry) (l : List (DeclaredAlias ⊕ Declared)) : Registry := l.foldl put r

@[simp] theorem hierarchy_putAll (r : Registry) (l : List (DeclaredAlias ⊕ Declared)) :
    (r.putAll l).hierarchy = r.hierarchy := by
  induction l generalizing r with
  | nil => rfl
  | cons x l ih => exact (ih (r.put x)).trans (hierarchy_put x)

/-- Declarations are registered exactly if they meet no source entry and have places of their own. -/
theorem foldlM_register_eq_ok_iff {l : List (DeclaredAlias ⊕ Declared)} :
    l.foldlM register r = .ok r' ↔
      (∀ x ∈ l, ¬ r.IsTaken x) ∧ l.Pairwise (fun x y => ¬ SamePlace x y) ∧ r.putAll l = r' := by
  induction l generalizing r with
  | nil =>
    show Except.ok r = .ok r' ↔ _
    simp [putAll]
  | cons x l ih =>
    simp only [List.foldlM_cons, bind_eq_ok_iff, register_eq_ok_iff, List.forall_mem_cons,
      List.pairwise_cons]
    constructor
    · rintro ⟨_, ⟨hx, rfl⟩, h⟩
      obtain ⟨hl, hpair, hput⟩ := ih.mp h
      have hplace : ∀ y ∈ l, ¬ SamePlace x y := fun y hy hxy => hl y hy (isTaken_put.mpr (.inl hxy))
      have hfree : ∀ y ∈ l, ¬ r.IsTaken y := fun y hy hy' => hl y hy (isTaken_put.mpr (.inr hy'))
      exact ⟨⟨hx, hfree⟩, ⟨hplace, hpair⟩, hput⟩
    · rintro ⟨⟨hx, hfree⟩, ⟨hplace, hpair⟩, hput⟩
      have hl : ∀ y ∈ l, ¬ (r.put x).IsTaken y := by
        intro y hy htaken
        exact (isTaken_put.mp htaken).elim (hplace y hy) (hfree y hy)
      exact ⟨r.put x, ⟨hx, rfl⟩, ih.mpr ⟨hl, hpair, hput⟩⟩

/-- The order in which entries are stored does not matter. -/
theorem putAll_perm {l l' : List (DeclaredAlias ⊕ Declared)} (p : l.Perm l')
    (hl : l.Pairwise fun x y => ¬ SamePlace x y) (r : Registry) : (r.putAll l).Alike (r.putAll l') :=
  foldl_perm Alike.equivalence (fun h h' => h h'.symm) (fun x _ _ h => h.put x) put_comm p hl r

/-- A stored class is found under its own entry. -/
theorem class?_putAll {l : List (DeclaredAlias ⊕ Declared)} (hl : l.Pairwise fun x y => ¬ SamePlace x y)
    {d : Declared} (hd : .inr d ∈ l) : (r.putAll l).class? d.name = some d.entry := by
  obtain ⟨front, behind, rfl⟩ := List.append_of_mem hd
  -- in another order the class comes last
  have p : (front ++ Sum.inr d :: behind).Perm ((front ++ behind) ++ [Sum.inr d]) :=
    List.perm_middle.trans (List.perm_append_singleton _ _).symm
  rw [(putAll_perm p hl r).lookups.class?_eq, putAll, List.foldl_append]
  exact (class?_putClass _ d.entry d.name).trans (if_pos rfl)

/-- A class that is found after storing entries was there before, or is one of them. -/
theorem eq_or_mem_of_class?_putAll {l : List (DeclaredAlias ⊕ Declared)} {c : ClassName} {e : ClassEntry}
    (h : (r.putAll l).class? c = some e) : r.class? c = some e ∨ ∃ d, .inr d ∈ l ∧ d.entry = e := by
  induction l generalizing r with
  | nil => exact .inl h
  | cons x l ih =>
    rcases ih (r := r.put x) h with h | ⟨d, hd, rfl⟩
    · cases x with
      | inl a => exact .inl ((class?_putAlias r a.entry c).symm.trans h)
      | inr d =>
        rw [put, class?_putClass] at h
        split at h
        · exact .inr ⟨d, List.mem_cons_self .., Option.some.inj h⟩
        · exact .inl h
    · exact .inr ⟨d, List.mem_cons_of_mem _ hd, rfl⟩

/-- Sources are registered as one list of declarations. -/
theorem registerSources_eq_foldlM (r : Registry) (sources : List SourceFile) :
    r.registerSources sources = (sources.flatMap SourceFile.entries).foldlM register r := by
  rw [foldlM_flatMap]
  have hfile : registerSource = fun r (f : SourceFile) => f.entries.foldlM register r := by
    funext r f
    rw [SourceFile.entries, List.foldlM_append, List.foldlM_map]
    simp only [List.foldlM_map]
    rfl
  rw [registerSources, hfile]

/-- After registration a declared class is found under its own entry. -/
theorem class?_of_registerSources {sources : List SourceFile} (h : r.registerSources sources = .ok r')
    {d : Declared} (hd : d ∈ sources.flatMap SourceFile.declared) : r'.class? d.name = some d.entry := by
  rw [registerSources_eq_foldlM] at h
  obtain ⟨-, hpair, rfl⟩ := foldlM_register_eq_ok_iff.mp h
  obtain ⟨f, hf, hdf⟩ := List.mem_flatMap.mp hd
  refine class?_putAll hpair (List.mem_flatMap.mpr ⟨f, hf, ?_⟩)
  exact List.mem_append_right _ (List.mem_map_of_mem hdf)

/-- A class that is found after registration was there before, or is declared. -/
theorem eq_or_mem_of_class?_registerSources {sources : List SourceFile} (h : r.registerSources sources = .ok r')
    {c : ClassName} {e : ClassEntry} (he : r'.class? c = some e) :
    r.class? c = some e ∨ ∃ d ∈ sources.flatMap SourceFile.declared, d.entry = e := by
  rw [registerSources_eq_foldlM] at h
  obtain ⟨-, -, rfl⟩ := foldlM_register_eq_ok_iff.mp h
  refine (eq_or_mem_of_class?_putAll he).imp_right ?_
  rintro ⟨d, hd, rfl⟩
  obtain ⟨f, hf, hdf⟩ := List.mem_flatMap.mp hd
  have hdeclared : d ∈ f.declared := by simpa [SourceFile.entries] using hdf
  exact ⟨d, List.mem_flatMap.mpr ⟨f, hf, hdeclared⟩, rfl⟩

/-- Registration declares no supertypes. -/
theorem hierarchy_of_registerSources {sources : List SourceFile} (h : r.registerSources sources = .ok r') :
    r'.hierarchy = r.hierarchy := by
  rw [registerSources_eq_foldlM] at h
  obtain ⟨-, -, rfl⟩ := foldlM_register_eq_ok_iff.mp h
  exact hierarchy_putAll r _

/-- Declarations that can be registered can be in any order, which does not show afterwards. -/
theorem foldlM_register_perm {l l' : List (DeclaredAlias ⊕ Declared)} (p : l.Perm l')
    (h : l.foldlM register r = .ok r') : ∃ r'', l'.foldlM register r = .ok r'' ∧ r'.Alike r'' := by
  obtain ⟨hfree, hpair, rfl⟩ := foldlM_register_eq_ok_iff.mp h
  have hfree' : ∀ x ∈ l', ¬ r.IsTaken x := fun x hx => hfree x (p.mem_iff.mpr hx)
  have hpair' : l'.Pairwise fun x y => ¬ SamePlace x y :=
    (p.pairwise_iff fun h h' => h h'.symm).mp hpair
  exact ⟨_, foldlM_register_eq_ok_iff.mpr ⟨hfree', hpair', rfl⟩, putAll_perm p hpair r⟩

end Registry

end ServiceCatalog
