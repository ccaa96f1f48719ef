import ServiceCatalog.Proofs.Resolve.Renaming

/-!
# Importing twice

A single import of a name is believed, but of several imports of one name the first one that is known is taken.  A
second copy of an import turns the one case into the other.  Where what the import stands for is known, this makes no
difference.  Where it is not, the import is passed over, and what would come behind it answers.  It is then no more than
an import that has its own short name for an alias, which is asked last.

* `Resolver.lookedUp`: the texts that decide what a reference resolves to.
* `ImportRepetition`: a file with an import that is repeated behind itself.
* `ImportRepetition.stands?`: what the import stands for in a text, if it is the only one of its short name.
* `ImportRepetition.lookUp_after`: what a text is looked up as, with the second copy.
* `ImportRepetition.resolve_repeated`: what a reference resolves to.
* `UnknownImport.not_forall_resolve_eq_repeated`: a class of the file's package that answers in the place of an unknown import.
-/

namespace ServiceCatalog

/-- What stands before a mark in a text is not the whole text. -/
theorem Text.cutFirst_ne {mark : Char} {s : String} {cut : String × String} (h : cutFirst mark s = some cut) :
    cut.1 ≠ s := by
  rintro rfl
  have hall : ∀ c ∈ cut.1.toList, (c != mark) = true := by
    intro c hc
    rw [cutFirst] at h
    split at h
    · exact absurd h nofun
    · rw [← Option.some.inj h, String.toList_ofList] at hc
      have hbefore := List.mem_takeWhile_imp hc
      exact hbefore
  rw [cutFirst, List.dropWhile_eq_nil_iff.mpr hall] at h
  exact absurd h nofun

/-! ## What a reference is looked up by -/

namespace Resolver

variable (r : Resolver) {c c' : Context}

/-- The text by which a named type is looked up.  One that is known as it stands is not looked up. -/
def lookedUpOfUserType (u : UserType) : List String :=
  if !u.qualifier.isEmpty && r.isClass (.ofText u.pathText) then [] else [u.pathText]

/-- The texts by which a type is looked up: that of its named type, and if this is not found, that of all its
tokens. -/
def lookedUpOfType (c : Context) (t : TypeRef) : List String :=
  match t.userType? with
  | some u => r.lookedUpOfUserType u ++ if (r.resolveUserType c u).toBool then [] else [t.text]
  | none => []

/-- The texts by which a reference is looked up. -/
def lookedUp (c : Context) : Reference → List String
  | .name i => [i.name]
  | .path p => if r.isClass p.dotted then [] else [p.text]
  | .userType u => r.lookedUpOfUserType u
  | .typeRef t => r.lookedUpOfType c t
  | .nullable e _ => (e.userType?.map r.lookedUpOfUserType).getD []
  | .annotationUse a => r.lookedUpOfType c a.type
  | .collection _ _ => []

theorem resolveText_congr_lookUp (hfile : c.file.name = c'.file.name) {text : String}
    (h : r.lookUp c text = r.lookUp c' text) (span : Span) : r.resolveText c text span = r.resolveText c' text span := by
  rw [resolveText, resolveText, h, hfile]

theorem resolveUserType_congr_lookUp (hfile : c.file.name = c'.file.name) {u : UserType}
    (h : ∀ text ∈ r.lookedUpOfUserType u, r.lookUp c text = r.lookUp c' text) :
    r.resolveUserType c u = r.resolveUserType c' u := by
  rw [resolveUserType, resolveUserType]
  split
  · rfl
  · next hunknown =>
    have htext : u.pathText ∈ r.lookedUpOfUserType u := by
      rw [lookedUpOfUserType, if_neg hunknown]
      exact List.mem_singleton_self _
    exact r.resolveText_congr_lookUp hfile (h _ htext) u.span

/-- A type that is not about a named one is a function type. -/
theorem exists_resolveElement_of_none (c : Context) {e : TypeElement} (h : e.userType? = none) :
    ∃ span, r.resolveElement c e = .error (.unsupported "function type" c.file.name span) := by
  fun_induction r.resolveElement c e with
  | case1 u => cases h
  | case2 e ih => exact ih h
  | case3 span => exact ⟨span, rfl⟩

theorem resolveElement_congr_lookUp (hfile : c.file.name = c'.file.name) {e : TypeElement}
    (h : ∀ text ∈ (e.userType?.map r.lookedUpOfUserType).getD [], r.lookUp c text = r.lookUp c' text) :
    r.resolveElement c e = r.resolveElement c' e := by
  fun_induction r.resolveElement c e with
  | case1 u => rw [resolveElement, r.resolveUserType_congr_lookUp hfile h]
  | case2 e ih => rw [resolveElement, ih h]
  | case3 span => rw [resolveElement, hfile]

theorem resolveType_congr_lookUp (hfile : c.file.name = c'.file.name) {t : TypeRef}
    (h : ∀ text ∈ r.lookedUpOfType c t, r.lookUp c text = r.lookUp c' text) : r.resolveType c t = r.resolveType c' t := by
  cases ht : t.userType? with
  | none =>
    have helement : r.resolveElement c t.element = r.resolveElement c' t.element :=
      r.resolveElement_congr_lookUp hfile (by rw [show t.element.userType? = none from ht]; exact nofun)
    rw [resolveType, resolveType, ← helement]
    -- a function type is never looked up by its text
    obtain ⟨span, hfunction⟩ := r.exists_resolveElement_of_none c ht
    rw [hfunction]
  | some u =>
    rw [lookedUpOfType, ht] at h
    have huser : r.resolveUserType c u = r.resolveUserType c' u :=
      r.resolveUserType_congr_lookUp hfile fun text htext => h text (List.mem_append_left _ htext)
    rw [resolveType, resolveType, r.resolveElement_of_userType? ht, r.resolveElement_of_userType? ht, ← huser]
    cases hresult : r.resolveUserType c u with
    | ok found => rfl
    | error e =>
      have htext : r.lookUp c t.text = r.lookUp c' t.text := by
        refine h t.text (List.mem_append_right _ ?_)
        rw [hresult]
        exact List.mem_singleton_self _
      rw [r.resolveText_congr_lookUp hfile htext]

/-- A reference resolves alike in two places where its texts are looked up alike. -/
theorem resolve_congr_of_lookedUp (hfile : c.file.name = c'.file.name) {reference : Reference}
    (h : ∀ text ∈ r.lookedUp c reference, r.lookUp c text = r.lookUp c' text) :
    r.resolve c reference = r.resolve c' reference := by
  cases reference with
  | name i => exact r.resolveText_congr_lookUp hfile (h _ (List.mem_singleton_self _)) i.span
  | path p =>
    rw [resolve, resolve, resolvePath, resolvePath]
    split
    · rfl
    · next hunknown =>
      have htext : p.text ∈ r.lookedUp c (.path p) := by
        rw [lookedUp, if_neg hunknown]
        exact List.mem_singleton_self _
      exact r.resolveText_congr_lookUp hfile (h _ htext) p.span
  | userType u => exact r.resolveUserType_congr_lookUp hfile h
  | typeRef t => exact r.resolveType_congr_lookUp hfile h
  | nullable e span => exact r.resolveElement_congr_lookUp hfile h
  | annotationUse a => exact r.resolveType_congr_lookUp hfile h
  | collection elements span => rw [resolve, resolve, hfile]

/-! ## Candidates that occur twice -/

/-- A candidate that occurs once more behind itself changes nothing among several; a single one is then taken only if it
is known. -/
theorem pick_repeated (front mid back : List DottedName) (n : DottedName) :
    r.pick (front ++ n :: (mid ++ n :: back)) =
      if front ++ mid ++ back = [] then (some n).filter r.isClassifier else r.pick (front ++ n :: (mid ++ back)) := by
  have hseveral : ∀ {l : List DottedName}, 1 < l.length → r.pick l = l.find? r.isClassifier := by
    intro l hl
    match l, hl with
    | _ :: _ :: _, _ => rfl
  have hlength : 1 < (front ++ n :: (mid ++ n :: back)).length := by
    simp only [List.length_append, List.length_cons]
    omega
  rw [hseveral hlength]
  split
  · next hnone =>
    obtain ⟨rfl, rfl, rfl⟩ : front = [] ∧ mid = [] ∧ back = [] := by simpa using hnone
    cases hn : r.isClassifier n <;> simp [hn, Option.filter]
  · next hsome =>
    have hothers : 0 < (front ++ mid ++ back).length := List.length_pos_iff.mpr hsome
    rw [hseveral (by simp only [List.length_append, List.length_cons] at hothers ⊢; omega)]
    -- the first copy is known if the second one is
    cases hn : r.isClassifier n <;> simp [List.find?_append, hn]

end Resolver

/-! ## The files -/

/-- A file with an import that is repeated: the file without it, the import and those before, between and behind the
two copies. -/
structure ImportRepetition where
  file : SourceFile
  front : List Import
  mid : List Import
  back : List Import
  repeated : Import

namespace ImportRepetition

variable (ρ : ImportRepetition)

/-- The imports besides the repeated one. -/
def others : List Import := ρ.front ++ ρ.mid ++ ρ.back

/-- The file with one copy of the import. -/
def before : SourceFile := { ρ.file with imports := ρ.front ++ ρ.repeated :: (ρ.mid ++ ρ.back) }

/-- The file with a second copy. -/
def after : SourceFile := { ρ.file with imports := ρ.front ++ ρ.repeated :: (ρ.mid ++ ρ.repeated :: ρ.back) }

/-- The file with one copy at the place of the second. -/
def moved : SourceFile := { ρ.file with imports := ρ.front ++ (ρ.mid ++ ρ.repeated :: ρ.back) }

/-- The import with its own short name for an alias. -/
def named : Import := { ρ.repeated with localName := some ⟨ρ.repeated.path.shortName, ρ.repeated.span⟩ }

/-- The file in which the import has its own short name for an alias. -/
def asAlias : SourceFile := { ρ.file with imports := ρ.front ++ ρ.named :: (ρ.mid ++ ρ.back) }

/-- Whether an import is one of a single name, without an alias. -/
def isPlain (i : Import) : Bool := !i.isWildcard && i.localName.isNone

/-- Whether the import is a plain one and the only plain one of its short name. -/
def isLone : Bool :=
  isPlain ρ.repeated && ρ.others.all fun i => !(isPlain i && i.path.shortName == ρ.repeated.path.shortName)

/-- What a plain import stands for in a text: in its short name itself, and in a text that begins with it and a dot. -/
def standsFor? (i : Import) (text : String) : Option DottedName :=
  if i.path.shortName = text then some i.target
  else if (Text.cutFirst '.' text).map Prod.fst = some i.path.shortName then some (i.target.parent.join text)
  else none

/-- What the import stands for in a text, if it is the only one of its short name. -/
def stands? (text : String) : Option DottedName := if ρ.isLone then standsFor? ρ.repeated text else none

/-- Whether what the import stands for in a text is known. -/
def IsKnown (r : Resolver) (text : String) : Prop := ∀ n, ρ.stands? text = some n → r.isClassifier n = true

/-- Whether it is unknown. -/
def IsUnknown (r : Resolver) (text : String) : Prop := ∀ n, ρ.stands? text = some n → r.isClassifier n = false

/-- Whether no import between the two copies introduces the same name or, if it is one of everything in a package, is
another such. -/
def IsFree : Prop :=
  ∀ i ∈ ρ.mid, i.introduced? ≠ ρ.repeated.introduced? ∧ (i.isWildcard && ρ.repeated.isWildcard) = false

variable (r : Resolver) (scopes : List ClassName) (text : String)

/-! ## The imports that fit a text -/

/-- Whether an import is a plain one of a short name. -/
def isOf (name : String) (i : Import) : Bool := isPlain i && decide (i.path.shortName = name)

theorem exactImport_eq (c : Context) :
    r.exactImport c text = r.pick ((c.file.imports.filter (isOf text)).map Import.target) := by
  rw [Resolver.exactImport, Resolver.plainImports, List.filter_filter]
  congr 3
  funext i
  exact Bool.and_comm _ _

theorem outerImport_eq (c : Context) :
    r.outerImport c text = (Text.cutFirst '.' text).bind fun cut =>
      r.pick ((c.file.imports.filter (isOf cut.1)).map fun i => i.target.parent.join text) := by
  rw [Resolver.outerImport, Resolver.plainImports]
  congr 1
  funext cut
  rw [List.filter_filter]
  congr 3
  funext i
  exact Bool.and_comm _ _

/-- The import with its short name for an alias is not plain. -/
@[simp] theorem isOf_named (name : String) : isOf name ρ.named = false := by simp [isOf, isPlain, named]

theorem isLone_iff :
    ρ.isLone = true ↔ isPlain ρ.repeated = true ∧ ρ.others.filter (isOf ρ.repeated.path.shortName) = [] := by
  rw [isLone, Bool.and_eq_true, List.all_eq_true, List.filter_eq_nil_iff]
  refine and_congr_right fun _ => forall₂_congr fun i _ => ?_
  rw [Bool.not_eq_true', Bool.not_eq_true, isOf]
  rfl

/-- Whether the import is the only one that fits a name. -/
theorem isOf_and_others_iff (name : String) :
    (isOf name ρ.repeated = true ∧ ρ.others.filter (isOf name) = []) ↔
      ρ.isLone = true ∧ ρ.repeated.path.shortName = name := by
  rw [isLone_iff, isOf, Bool.and_eq_true, decide_eq_true_eq]
  constructor
  · rintro ⟨⟨hplain, rfl⟩, hothers⟩
    exact ⟨⟨hplain, hothers⟩, rfl⟩
  · rintro ⟨⟨hplain, hothers⟩, rfl⟩
    exact ⟨⟨hplain, rfl⟩, hothers⟩

section Pick

variable (name : String) (f : Import → DottedName)

/-- The choice among the imports of a name with the second copy: if the import is the only one, it is taken only if it
is known. -/
theorem pick_after :
    r.pick ((ρ.after.imports.filter (isOf name)).map f) =
      if ρ.isLone = true ∧ ρ.repeated.path.shortName = name then (some (f ρ.repeated)).filter r.isClassifier
      else r.pick ((ρ.before.imports.filter (isOf name)).map f) := by
  rw [← if_congr (ρ.isOf_and_others_iff name) rfl rfl]
  by_cases hself : isOf name ρ.repeated = true
  · simp only [after, before, others, List.filter_append, List.filter_cons, hself, if_true, List.map_append, List.map_cons,
      Resolver.pick_repeated, true_and]
    refine if_congr ?_ rfl rfl
    simp only [List.append_eq_nil_iff, List.map_eq_nil_iff]
  · rw [if_neg fun h => hself h.1]
    simp only [after, before, List.filter_append, List.filter_cons, hself, Bool.false_eq_true, if_false]

/-- The only import of a name is taken as it is. -/
theorem pick_before (h : ρ.isLone = true ∧ ρ.repeated.path.shortName = name) :
    r.pick ((ρ.before.imports.filter (isOf name)).map f) = some (f ρ.repeated) := by
  obtain ⟨hself, hothers⟩ := (ρ.isOf_and_others_iff name).mpr h
  obtain ⟨hfront, hmid, hback⟩ : ρ.front.filter (isOf name) = [] ∧ ρ.mid.filter (isOf name) = [] ∧
      ρ.back.filter (isOf name) = [] := by
    simpa only [others, List.filter_append, List.append_eq_nil_iff, and_assoc] using hothers
  simp only [before, List.filter_append, List.filter_cons, hself, hfront, hmid, hback, if_true]
  rfl

/-- Under an alias the import is not among those of a name. -/
theorem pick_asAlias (h : ρ.isLone = true) :
    r.pick ((ρ.asAlias.imports.filter (isOf name)).map f) =
      if ρ.repeated.path.shortName = name then none
      else r.pick ((ρ.before.imports.filter (isOf name)).map f) := by
  have hasAlias : ρ.asAlias.imports.filter (isOf name) = ρ.others.filter (isOf name) := by
    simp only [asAlias, others, List.filter_append, List.filter_cons, isOf_named, List.append_assoc, Bool.false_eq_true,
      if_false]
  rw [hasAlias]
  split
  · next hname =>
    rw [((ρ.isOf_and_others_iff name).mpr ⟨h, hname⟩).2]
    rfl
  · next hname =>
    have hself : isOf name ρ.repeated = false := by simp [isOf, hname]
    simp only [before, others, List.filter_append, List.filter_cons, hself, List.append_assoc, Bool.false_eq_true,
      if_false]

end Pick

/-! ## What a text is looked up as -/

/-- An import of everything, or under a name, that occurs once more behind itself changes nothing. -/
theorem find?_repeated {α : Type} (p : α → Bool) (front mid back : List α) (a : α) :
    (front ++ a :: (mid ++ a :: back)).find? p = (front ++ a :: (mid ++ back)).find? p := by
  cases ha : p a <;> simp [List.find?_append, ha]

theorem wildcardImport_after : r.wildcardImport ⟨ρ.after, scopes⟩ text = r.wildcardImport ⟨ρ.before, scopes⟩ text := by
  simp only [Resolver.wildcardImport, Resolver.wildcardImports, after, before, List.filter_append, List.filter_cons]
  split
  · simp only [List.map_append, List.map_cons, find?_repeated]
  · rfl

theorem namedImport_after :
    Resolver.namedImport ⟨ρ.after, scopes⟩ text = Resolver.namedImport ⟨ρ.before, scopes⟩ text := by
  rw [Resolver.namedImport, Resolver.namedImport, after, before, find?_repeated]

theorem wildcardImport_asAlias :
    r.wildcardImport ⟨ρ.asAlias, scopes⟩ text = r.wildcardImport ⟨ρ.before, scopes⟩ text := by
  have hwildcard : ρ.named.isWildcard = ρ.repeated.isWildcard := rfl
  have htarget : ρ.named.target = ρ.repeated.target := rfl
  simp only [Resolver.wildcardImport, Resolver.wildcardImports, asAlias, before, List.filter_append, List.filter_cons,
    hwildcard]
  split
  · simp only [List.map_append, List.map_cons, htarget]
  · rfl

/-- A plain import introduces its short name with and without the alias. -/
theorem namedImport_asAlias (h : ρ.isLone = true) :
    Resolver.namedImport ⟨ρ.asAlias, scopes⟩ text = Resolver.namedImport ⟨ρ.before, scopes⟩ text := by
  obtain ⟨hplain, -⟩ := ρ.isLone_iff.mp h
  have hwildcard : ρ.repeated.isWildcard = false := by
    rw [isPlain, Bool.and_eq_true, Bool.not_eq_true'] at hplain
    exact hplain.1
  have hintroduced : ρ.named.introduced? = ρ.repeated.introduced? := by
    rw [ImportRenaming.introduced?_of_plain hplain, Import.introduced?, named, hwildcard]
    rfl
  have htarget : ρ.named.target = ρ.repeated.target := rfl
  simp only [Resolver.namedImport, asAlias, before, List.find?_append, List.find?_cons, hintroduced]
  split
  · cases ρ.front.find? fun i => decide (i.introduced? = some text) with
    | none => exact congrArg some htarget
    | some i => rfl
  · rfl

/-- A text is the same in two files that agree on the imports of a name, on those of everything and under a name. -/
theorem lookUp_congr_imports {f f' : SourceFile} (hpackage : f.packageName = f'.packageName)
    (hexact : r.exactImport ⟨f, scopes⟩ text = r.exactImport ⟨f', scopes⟩ text)
    (houter : r.outerImport ⟨f, scopes⟩ text = r.outerImport ⟨f', scopes⟩ text)
    (hwildcard : r.wildcardImport ⟨f, scopes⟩ text = r.wildcardImport ⟨f', scopes⟩ text)
    (hnamed : Resolver.namedImport ⟨f, scopes⟩ text = Resolver.namedImport ⟨f', scopes⟩ text) :
    r.lookUp ⟨f, scopes⟩ text = r.lookUp ⟨f', scopes⟩ text := by
  have hsame : r.samePackage ⟨f, scopes⟩ text = r.samePackage ⟨f', scopes⟩ text := by
    rw [Resolver.samePackage, Resolver.samePackage, hpackage]
  rw [Resolver.lookUp, Resolver.lookUp, hexact, houter, hsame, hwildcard, hnamed]
  rfl

/-- What the only import of the first segment of a text stands for in it. -/
theorem stands?_of_cut {cut : String × String} (hcut : Text.cutFirst '.' text = some cut)
    (h : ρ.isLone = true ∧ ρ.repeated.path.shortName = cut.1) :
    ρ.stands? text = some (ρ.repeated.target.parent.join text) := by
  have hne : ρ.repeated.path.shortName ≠ text := h.2 ▸ Text.cutFirst_ne hcut
  rw [stands?, if_pos h.1, standsFor?, if_neg hne, hcut, h.2]
  exact if_pos rfl

/-- What the only import of a text stands for in it. -/
theorem stands?_self (h : ρ.isLone = true ∧ ρ.repeated.path.shortName = text) :
    ρ.stands? text = some ρ.repeated.target := by
  rw [stands?, if_pos h.1, standsFor?, if_pos h.2]

/-- With the second copy a text is what it is with one copy if what the import stands for is known. -/
theorem lookUp_after (h : ρ.IsKnown r text) : r.lookUp ⟨ρ.after, scopes⟩ text = r.lookUp ⟨ρ.before, scopes⟩ text := by
  have hpick : ∀ (name : String) (f : Import → DottedName),
      (ρ.isLone = true ∧ ρ.repeated.path.shortName = name → ρ.stands? text = some (f ρ.repeated)) →
      r.pick ((ρ.after.imports.filter (isOf name)).map f) = r.pick ((ρ.before.imports.filter (isOf name)).map f) := by
    intro name f hstands
    rw [pick_after]
    split
    · next hlone => rw [ρ.pick_before r name f hlone, Option.filter_some, if_pos (h _ (hstands hlone))]
    · rfl
  refine lookUp_congr_imports r scopes text rfl ?_ ?_ (ρ.wildcardImport_after r scopes text)
    (ρ.namedImport_after scopes text)
  · rw [exactImport_eq, exactImport_eq]
    exact hpick text Import.target (ρ.stands?_self text)
  · rw [outerImport_eq, outerImport_eq]
    cases hcut : Text.cutFirst '.' text with
    | none => rfl
    | some cut => exact hpick cut.1 _ (ρ.stands?_of_cut text hcut)

/-- If it is unknown, the text is what it is if the import has its own short name for an alias. -/
theorem lookUp_after_of_isUnknown (hlone : ρ.isLone = true) (h : ρ.IsUnknown r text) :
    r.lookUp ⟨ρ.after, scopes⟩ text = r.lookUp ⟨ρ.asAlias, scopes⟩ text := by
  have hpick : ∀ (name : String) (f : Import → DottedName),
      (ρ.isLone = true ∧ ρ.repeated.path.shortName = name → ρ.stands? text = some (f ρ.repeated)) →
      r.pick ((ρ.after.imports.filter (isOf name)).map f) = r.pick ((ρ.asAlias.imports.filter (isOf name)).map f) := by
    intro name f hstands
    rw [pick_after, ρ.pick_asAlias r name f hlone]
    by_cases hname : ρ.repeated.path.shortName = name
    · rw [if_pos ⟨hlone, hname⟩, if_pos hname, Option.filter_some, h _ (hstands ⟨hlone, hname⟩)]
      rfl
    · rw [if_neg fun hself => hname hself.2, if_neg hname]
  refine lookUp_congr_imports r scopes text rfl ?_ ?_
    ((ρ.wildcardImport_after r scopes text).trans (ρ.wildcardImport_asAlias r scopes text).symm)
    ((ρ.namedImport_after scopes text).trans (ρ.namedImport_asAlias scopes text hlone).symm)
  · rw [exactImport_eq, exactImport_eq]
    exact hpick text Import.target (ρ.stands?_self text)
  · rw [outerImport_eq, outerImport_eq]
    cases hcut : Text.cutFirst '.' text with
    | none => rfl
    | some cut => exact hpick cut.1 _ (ρ.stands?_of_cut text hcut)

/-- Where no import between the two places has what the import has, it can stand at either. -/
theorem filter_moved (p : Import → Bool) (h : p ρ.repeated = true → ∀ i ∈ ρ.mid, p i = false) :
    ρ.moved.imports.filter p = ρ.before.imports.filter p := by
  simp only [moved, before, List.filter_append, List.filter_cons]
  split
  · next hself =>
    have hmid : ρ.mid.filter p = [] := List.filter_eq_nil_iff.mpr fun i hi => by simp [h hself i hi]
    simp only [hmid, List.nil_append]
  · rfl

/-- Where the import is free of those between the two places, a text is the same with it at either. -/
theorem lookUp_moved (h : ρ.IsFree) : r.lookUp ⟨ρ.moved, scopes⟩ text = r.lookUp ⟨ρ.before, scopes⟩ text := by
  have hof : ∀ name, ρ.moved.imports.filter (isOf name) = ρ.before.imports.filter (isOf name) := by
    intro name
    refine ρ.filter_moved _ fun hself i hi => ?_
    by_contra hi'
    have hintroduced : ∀ {i : Import}, isOf name i = true → i.introduced? = some name := by
      intro i hof
      rw [isOf, Bool.and_eq_true, decide_eq_true_eq] at hof
      rw [ImportRenaming.introduced?_of_plain hof.1, hof.2]
    exact (h i hi).1 ((hintroduced (by simpa using hi')).trans (hintroduced hself).symm)
  refine lookUp_congr_imports r scopes text rfl ?_ ?_ ?_ ?_
  · rw [exactImport_eq, exactImport_eq, hof]
  · rw [outerImport_eq, outerImport_eq]
    simp only [hof]
  · have hwildcard := ρ.filter_moved Import.isWildcard fun hself i hi => by
      have hboth := (h i hi).2
      rwa [hself, Bool.and_true] at hboth
    rw [Resolver.wildcardImport, Resolver.wildcardImport, Resolver.wildcardImports, Resolver.wildcardImports, hwildcard]
  · have hnamed := ρ.filter_moved (fun i => decide (i.introduced? = some text)) fun hself i hi => by
      rw [decide_eq_true_eq] at hself
      exact decide_eq_false fun hi' => (h i hi).1 (hi'.trans hself.symm)
    rw [Resolver.namedImport, Resolver.namedImport, ← List.head?_filter, ← List.head?_filter, hnamed]

/-! ## What a reference resolves to -/

/-- A second copy of an import, behind the first or in front of it where the imports between do not interfere, changes
nothing if every text by which the reference is looked up and for which the import alone stands is known.  If none is,
the import is then like one that has its own short name for an alias. -/
theorem resolve_repeated (ρ : ImportRepetition) (r : Resolver) (scopes : List ClassName) (reference : Reference) :
    ((∀ text ∈ r.lookedUp ⟨ρ.before, scopes⟩ reference, ρ.IsKnown r text) →
      r.resolve ⟨ρ.after, scopes⟩ reference = r.resolve ⟨ρ.before, scopes⟩ reference ∧
        (ρ.IsFree → r.resolve ⟨ρ.after, scopes⟩ reference = r.resolve ⟨ρ.moved, scopes⟩ reference)) ∧
      (ρ.isLone = true → (∀ text ∈ r.lookedUp ⟨ρ.asAlias, scopes⟩ reference, ρ.IsUnknown r text) →
        r.resolve ⟨ρ.after, scopes⟩ reference = r.resolve ⟨ρ.asAlias, scopes⟩ reference) := by
  constructor
  · intro hknown
    have hafter : r.resolve ⟨ρ.before, scopes⟩ reference = r.resolve ⟨ρ.after, scopes⟩ reference :=
      r.resolve_congr_of_lookedUp (by rfl) fun text htext => (ρ.lookUp_after r scopes text (hknown text htext)).symm
    refine ⟨hafter.symm, fun hfree => hafter.symm.trans ?_⟩
    exact r.resolve_congr_of_lookedUp (by rfl) fun text _ => (ρ.lookUp_moved r scopes text hfree).symm
  · intro hlone hunknown
    have hasAlias : r.resolve ⟨ρ.asAlias, scopes⟩ reference = r.resolve ⟨ρ.after, scopes⟩ reference :=
      r.resolve_congr_of_lookedUp (by rfl) fun text htext =>
        (ρ.lookUp_after_of_isUnknown r scopes text hlone (hunknown text htext)).symm
    exact hasAlias.symm

end ImportRepetition

/-! ## An import of what is not known -/

namespace UnknownImport

open ClassOfAlias (ident)

/-- In the package `a`, the import of `p.X` is repeated. -/
def repeated : ImportRepetition where
  file := ⟨"T.kt", [], some ⟨[ident "a"], default⟩, [], [], [], default⟩
  front := []
  mid := []
  back := []
  repeated := ⟨⟨[ident "p", ident "X"], default⟩, false, none, default⟩

/-- The resolver that knows a class. -/
def knowing (name : ClassName) : Resolver := ⟨Registry.empty.putClass ⟨name, .class, .source⟩, .full⟩

/-- If `p.X` is known, the second copy changes nothing.  If it is not, it is what the import would be as an alias: the
class `a.X` answers. -/
theorem resolve_repeated_X :
    (knowing ⟨⟨["p"]⟩, ⟨["X"]⟩⟩).resolve ⟨repeated.after, []⟩ (.name (ident "X")) = .ok ⟨["p", "X"]⟩ ∧
      (knowing ⟨⟨["a"]⟩, ⟨["X"]⟩⟩).resolve ⟨repeated.after, []⟩ (.name (ident "X")) = .ok ⟨["a", "X"]⟩ := by
  have hstands : repeated.stands? "X" = some ⟨["p", "X"]⟩ := by decide
  constructor
  · refine ((ImportRepetition.resolve_repeated repeated (knowing ⟨⟨["p"]⟩, ⟨["X"]⟩⟩) [] (.name (ident "X"))).1
      ?_).1.trans rfl
    rintro text htext n hn
    obtain rfl : text = "X" := List.mem_singleton.mp htext
    rw [← Option.some.inj (hstands.symm.trans hn)]
    rfl
  · refine ((ImportRepetition.resolve_repeated repeated (knowing ⟨⟨["a"]⟩, ⟨["X"]⟩⟩) [] (.name (ident "X"))).2
      (by decide) ?_).trans rfl
    rintro text htext n hn
    obtain rfl : text = "X" := List.mem_singleton.mp htext
    rw [← Option.some.inj (hstands.symm.trans hn)]
    rfl

/-- Repeating an import can change what a reference resolves to. -/
theorem not_forall_resolve_eq_repeated :
    ¬ ∀ (ρ : ImportRepetition) (r : Resolver) (scopes : List ClassName) (reference : Reference),
      r.resolve ⟨ρ.after, scopes⟩ reference = r.resolve ⟨ρ.before, scopes⟩ reference := by
  intro h
  have hresolve := h repeated (knowing ⟨⟨["a"]⟩, ⟨["X"]⟩⟩) [] (.name (ident "X"))
  have hafter : (knowing ⟨⟨["a"]⟩, ⟨["X"]⟩⟩).resolve ⟨repeated.after, []⟩ (.name (ident "X")) = .ok ⟨["a", "X"]⟩ := rfl
  have hbefore : (knowing ⟨⟨["a"]⟩, ⟨["X"]⟩⟩).resolve ⟨repeated.before, []⟩ (.name (ident "X")) = .ok ⟨["p", "X"]⟩ := rfl
  rw [hafter, hbefore] at hresolve
  exact absurd (Except.ok.inj hresolve) (by decide)

end UnknownImport

end ServiceCatalog
