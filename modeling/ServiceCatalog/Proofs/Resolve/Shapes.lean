import ServiceCatalog.Proofs.Parse.TypeText
import ServiceCatalog.Proofs.Registry.Precedence

/-!
# The shape of a reference

A class can be mentioned by a name or a path, by a named type with type arguments, with question marks, parentheses and
annotations around it, and by an annotation.  All of these come down to the dotted path.  Only a type has a second
chance: if its path is not found, it is looked up by the text of all its tokens.  Where all names are ordinary, this is
no chance at all, for what is added to the path cannot be part of a name.

* `DottedName.IsOrdinary`, `Registry.IsOrdinary`, `Import.IsOrdinary`: names of identifiers, and what has such names.
* `Registry.isOrdinary_afterCalls`: the registries that are filled with ordinary names.
* `Resolver.lookUp_of_mentions`: a text that mentions a path is not found if the path is not.
* `Resolver.meant?`: what a path stands for.
* `Reference.IsRead`: references with types as they are read from a source file.
* `Resolver.resolve_of_names`: what the references by the same names resolve to.  `ImportedClass` is a place of some.
-/

namespace ServiceCatalog

open DottedName (segmentsOf)

/-! ## Ordinary names -/

/-- Whether the segments of a name are ordinary identifiers. -/
def DottedName.IsOrdinary (n : DottedName) : Prop := ∀ s ∈ n.segments, isWord s.toList = true

/-- Words are plain segments. -/
theorem plain_of_isWord {s : String} (h : isWord s.toList = true) : s ≠ "" ∧ '.' ∉ s.toList := by
  refine ⟨?_, fun hdot => ?_⟩
  · rintro rfl
    exact absurd h nofun
  · exact absurd (Text.ne_dot_of_isIdentifierPart (Token.isIdentifierPart_of_isWord h _ hdot)) (by decide)

theorem DottedName.IsOrdinary.plain {n : DottedName} (h : n.IsOrdinary) : n.Plain :=
  fun s hs => plain_of_isWord (h s hs)

theorem ClassName.plain_of_isOrdinary {c : ClassName} (h : c.dotted.IsOrdinary) : c.Plain :=
  ⟨fun s hs => plain_of_isWord (h s (List.mem_append_left _ hs)),
    fun s hs => plain_of_isWord (h s (List.mem_append_right _ hs))⟩

/-! ### Imports -/

/-- Whether the names of an import are ordinary identifiers. -/
structure Import.IsOrdinary (i : Import) : Prop where
  path : i.target.IsOrdinary
  localName : ∀ n, i.localName = some n → isWord n.name.toList = true

namespace Import

variable {i : Import} (h : i.IsOrdinary)

include h

/-- The short name of an import of ordinary names has no foreign character. -/
theorem IsOrdinary.shortName : ∀ c ∈ i.path.shortName.toList, isIdentifierPart c = true := by
  rw [Path.shortName]
  rcases List.eq_nil_or_concat i.path.names with hnil | ⟨l, s, hl⟩
  · rw [hnil]
    simp
  · have hmem : s ∈ i.path.names := by rw [hl]; simp
    rw [hl]
    simpa using Token.isIdentifierPart_of_isWord (h.path s hmem)

theorem IsOrdinary.introduced? {name : String} (hname : i.introduced? = some name) :
    ∀ c ∈ name.toList, isIdentifierPart c = true := by
  rw [Import.introduced?] at hname
  split at hname
  · contradiction
  · split at hname
    · next hlocal =>
      obtain rfl := Option.some.inj hname
      exact Token.isIdentifierPart_of_isWord (h.localName _ hlocal)
    · obtain rfl := Option.some.inj hname
      exact h.shortName

end Import

/-! ### Registries -/

/-- Whether the entries of a registry stand in their place and have ordinary names. -/
structure Registry.IsOrdinary (r : Registry) : Prop where
  kept : r.Kept
  classes : ∀ e ∈ r.classes, e.name.dotted.IsOrdinary
  aliases : ∀ a ∈ r.aliases, a.name.IsOrdinary

/-- Whether a call names what it registers by ordinary names. -/
def RegistryCall.IsOrdinary : RegistryCall → Prop
  | registerClass e => e.name.dotted.IsOrdinary
  | registerFile f => ∀ c, f.className? = some c → c.dotted.IsOrdinary
  | registerAlias a => a.name.IsOrdinary
  | linkAlias .. | addSupertype .. => True

namespace RegistryCall

variable {call : RegistryCall} (h : call.IsOrdinary)

include h

theorem IsOrdinary.plain : call.Plain := by
  cases call with
  | registerClass e => exact ClassName.plain_of_isOrdinary h
  | registerFile f => exact fun c hc => ClassName.plain_of_isOrdinary (h c hc)
  | registerAlias a => exact DottedName.IsOrdinary.plain h
  | linkAlias name target => trivial
  | addSupertype sub super => trivial

theorem IsOrdinary.class? {e : ClassEntry} (he : call.class? = some e) : e.name.dotted.IsOrdinary := by
  cases call with
  | registerClass e' => exact Option.some.inj he ▸ h
  | registerFile f =>
    rw [RegistryCall.class?] at he
    split at he
    · contradiction
    · obtain ⟨c, hc, rfl⟩ := Option.map_eq_some_iff.mp he
      exact h c hc
  | registerAlias | linkAlias | addSupertype => contradiction

theorem IsOrdinary.alias? {a : AliasEntry} (ha : call.alias? = some a) : a.name.IsOrdinary := by
  cases call with
  | registerAlias a' => exact Option.some.inj ha ▸ h
  | registerClass | registerFile | linkAlias | addSupertype => contradiction

end RegistryCall

/-- Of the class that is there and a new one, one stays. -/
theorem ClassEntry.over_cases (new : ClassEntry) (old : Option ClassEntry) :
    new.over old = new ∨ old = some (new.over old) := by
  cases old with
  | none => exact .inl rfl
  | some old =>
    rw [ClassEntry.over]
    split
    · exact .inr rfl
    · exact .inl rfl

/-- Of the type alias that is there and a new one, one stays. -/
theorem AliasEntry.over_cases (new : AliasEntry) (old : Option AliasEntry) :
    new.over old = new ∨ old = some (new.over old) := by
  cases old with
  | none => exact .inl rfl
  | some old =>
    rw [AliasEntry.over]
    split
    · exact .inr rfl
    · exact .inl rfl

namespace Registry

variable {r : Registry}

namespace IsOrdinary

variable (h : r.IsOrdinary)

include h

/-- A class that is found has an ordinary name. -/
theorem of_class? {c : ClassName} {e : ClassEntry} (he : r.class? c = some e) : e.name.dotted.IsOrdinary :=
  h.classes e (mem_of_bind_package? (fun node p hp => (h.kept.packages node p hp).classes) he).1

/-- So has a type alias that is found. -/
theorem of_alias? {n : DottedName} {a : AliasEntry} (ha : r.alias? n = some a) : a.name.IsOrdinary :=
  h.aliases a (mem_of_bind_package? (fun node p hp => (h.kept.packages node p hp).aliases) ha).1

/-- A class that is found behind a call has an ordinary name. -/
theorem of_class?_call {call : RegistryCall} (hcall : call.IsOrdinary) {c : ClassName} {e : ClassEntry}
    (he : (r.call call).2.class? c = some e) : e.name.dotted.IsOrdinary := by
  cases hbrings : call.class? with
  | none => exact h.of_class? ((class?_call_of_none hbrings c).symm.trans he)
  | some new =>
    rw [class?_call_of_some hbrings c] at he
    split at he
    · obtain rfl := Option.some.inj he
      rcases new.over_cases (r.class? c) with hnew | hold
      · rw [hnew]
        exact hcall.class? hbrings
      · exact h.of_class? hold
    · exact h.of_class? he

/-- So has a type alias that is found behind a call. -/
theorem of_alias?_call {call : RegistryCall} (hcall : call.IsOrdinary) {n : DottedName} {a : AliasEntry}
    (ha : (r.call call).2.alias? n = some a) : a.name.IsOrdinary := by
  cases hbrings : call.alias? with
  | some new =>
    rw [alias?_call_of_some hbrings n] at ha
    split at ha
    · obtain rfl := Option.some.inj ha
      rcases new.over_cases (r.alias? n) with hnew | hold
      · rw [hnew]
        exact hcall.alias? hbrings
      · exact h.of_alias? hold
    · exact h.of_alias? ha
  | none =>
    have hkeep : call.IsRegistration → a.name.IsOrdinary :=
      fun hcall => h.of_alias? ((alias?_call_of_none hcall hbrings n).symm.trans ha)
    cases call with
    | registerClass | registerFile => exact hkeep trivial
    | registerAlias => contradiction
    | addSupertype sub super => exact h.of_alias? ha
    | linkAlias name target =>
      rw [Registry.call] at ha
      split at ha
      · next r' hr =>
        -- a linked alias has the name of the one that it links
        obtain ⟨old, hold, rfl⟩ := Option.map_eq_some_iff.mp hr
        rw [r.alias?_changePackage_insert name { old with target := some target } n] at ha
        split at ha
        · obtain rfl := Option.some.inj ha
          exact h.of_alias? (a := old) hold
        · exact h.of_alias? ha
      · exact h.of_alias? ha

/-- A call keeps the names of a registry ordinary. -/
theorem call {call : RegistryCall} (hcall : call.IsOrdinary) : (r.call call).2.IsOrdinary := by
  have hkept := h.kept.call hcall.plain
  refine ⟨hkept, fun e he => ?_, fun a ha => ?_⟩
  · exact h.of_class?_call hcall (bind_package?_of_mem (fun node p hp => (hkept.packages node p hp).classes) he)
  · exact h.of_alias?_call hcall (bind_package?_of_mem (fun node p hp => (hkept.packages node p hp).aliases) ha)

end IsOrdinary

/-- A registry that is filled with ordinary names is one of ordinary names. -/
theorem isOrdinary_afterCalls {calls : List RegistryCall} (hcalls : ∀ c ∈ calls, c.IsOrdinary) :
    (empty.afterCalls calls).IsOrdinary := by
  have hrun : ∀ r : Registry, r.IsOrdinary → (r.afterCalls calls).IsOrdinary := by
    induction calls with
    | nil => exact fun r hr => hr
    | cons c calls ih =>
      obtain ⟨hc, hcalls⟩ := List.forall_mem_cons.mp hcalls
      exact fun r hr => ih hcalls _ (hr.call hc)
  exact hrun empty ⟨.empty, nofun, nofun⟩

namespace IsOrdinary

variable (h : r.IsOrdinary)

include h

/-- The plain segments of the name of a class that is found are words. -/
theorem isWord_of_class? {c : ClassName} {e : ClassEntry} (he : r.class? c = some e) {s : String}
    (hs : s ∈ c.dotted.segments) (hplain : s ≠ "" ∧ '.' ∉ s.toList) : isWord s.toList = true := by
  obtain ⟨hmem, hplace, hentry⟩ := mem_of_bind_package? (fun node p hp => (h.kept.packages node p hp).classes) he
  obtain ⟨hpackage, htext⟩ := Prod.mk.inj hplace
  rcases List.mem_append.mp hs with hs | hs
  · exact h.classes e hmem s (List.mem_append_left _ (hpackage ▸ hs))
  · have hpart : s ∈ Text.parts '.' e.name.relative.text := by
      rw [htext, DottedName.text, Text.parts_joined_eq_flatMap '.' (List.ne_nil_of_mem hs)]
      exact List.mem_flatMap.mpr ⟨s, hs, by rw [Text.parts_of_notMem hplain.2]; exact List.mem_singleton_self _⟩
    have hsegment : s ∈ segmentsOf e.name.relative.text := List.mem_filter.mpr ⟨hpart, by simpa using hplain.1⟩
    have hread : segmentsOf e.name.relative.text = e.name.relative.segments :=
      congrArg DottedName.segments hentry.2.ofText_text
    exact h.classes e hmem s (List.mem_append_right _ (hread ▸ hsegment))

/-- So are those of a type alias that is found. -/
theorem isWord_of_alias? {n : DottedName} {a : AliasEntry} (ha : r.alias? n = some a) {s : String}
    (hs : s ∈ n.segments) (hplain : s ≠ "" ∧ '.' ∉ s.toList) : isWord s.toList = true := by
  obtain ⟨hmem, hplace, -⟩ := mem_of_bind_package? (fun node p hp => (h.kept.packages node p hp).aliases) ha
  obtain ⟨hparent, hshort⟩ := Prod.mk.inj hplace
  rcases n.root_or_child with rfl | ⟨m, t, rfl⟩
  · exact absurd hs List.not_mem_nil
  rw [DottedName.parent_child] at hparent
  rw [DottedName.shortName_child] at hshort
  rcases List.mem_append.mp hs with hs | hs
  · have hsegments : m.segments = a.name.segments.dropLast := by rw [← hparent]; rfl
    exact h.aliases a hmem s (List.dropLast_subset _ (hsegments ▸ hs))
  · obtain rfl := List.mem_singleton.mp hs
    rcases a.name.root_or_child with hroot | ⟨m', t', hchild⟩
    · rw [hroot] at hshort
      exact absurd hshort.symm hplain.1
    · rw [hchild, DottedName.shortName_child] at hshort
      exact h.aliases a hmem s (by rw [hchild, ← hshort]; simp)

end IsOrdinary

end Registry

/-! ## Texts that are more than a path -/

/-- A foreign character of a text stands in a segment that is no word. -/
theorem Text.exists_segment_of_foreign {text : String} (h : ∃ c ∈ text.toList, IsForeign c) :
    ∃ s ∈ segmentsOf text, isWord s.toList = false := by
  obtain ⟨c, hc, hforeign⟩ := h
  have hjoined : joined '.' (parts '.' text) = text := by
    apply String.toList_injective
    rw [toList_joined, parts, List.map_map]
    simp [Function.comp_def]
  obtain ⟨s, hs, hmem⟩ : ∃ s ∈ parts '.' text, c ∈ s.toList := by
    by_contra hnone
    push Not at hnone
    exact notMem_joined hforeign.2 hnone (hjoined.symm ▸ hc)
  refine ⟨s, List.mem_filter.mpr ⟨hs, ?_⟩, ?_⟩
  · rw [decide_eq_true_eq]
    rintro rfl
    exact absurd hmem List.not_mem_nil
  · rw [← Bool.not_eq_true]
    intro hword
    exact absurd ((Token.isIdentifierPart_of_isWord hword c hmem).symm.trans hforeign.1) (by simp)

namespace Resolver

variable {r : Resolver} (h : r.registry.IsOrdinary)

/-- Where none of several candidates is known, none is taken. -/
theorem pick_eq_none {candidates : List DottedName} (hlength : candidates.length ≠ 1)
    (hunknown : ∀ n ∈ candidates, r.isClassifier n = false) : r.pick candidates = none := by
  match candidates, hlength with
  | [], _ => rfl
  | first :: second :: others, _ =>
    rw [pick, List.find?_eq_none]
    · exact fun n hn => by simp [hunknown n hn]
    · exact nofun

section Foreign

open Text (IsForeign)

variable {text : String} (hforeign : ∃ d ∈ text.toList, IsForeign d)

section Registry

include h hforeign

/-- Nothing is known under a text with a foreign character. -/
theorem class?_join (package outer : DottedName) : r.registry.class? ⟨package, outer.join text⟩ = none := by
  obtain ⟨s, hs, hword⟩ := Text.exists_segment_of_foreign hforeign
  rw [← Option.not_isSome_iff_eq_none, Option.isSome_iff_exists]
  rintro ⟨e, he⟩
  have hmem : s ∈ (ClassName.mk package (outer.join text)).dotted.segments :=
    List.mem_append_right _ (List.mem_append_right _ hs)
  exact absurd ((h.isWord_of_class? he hmem (DottedName.plain_ofText text s hs)).symm.trans hword) nofun

theorem isClass_join (n : DottedName) : r.isClass (n.join text) = false := by
  obtain ⟨s, hs, hword⟩ := Text.exists_segment_of_foreign hforeign
  rw [isClass, Registry.findClass?, Option.isSome_eq_false_iff, Option.isNone_iff_eq_none, List.findSome?_eq_none_iff]
  intro d hd
  obtain ⟨hdotted, -⟩ := Registry.mem_cuts.mp hd
  rw [← Option.not_isSome_iff_eq_none, Option.isSome_iff_exists]
  rintro ⟨e, he⟩
  have hmem : s ∈ d.dotted.segments := hdotted ▸ List.mem_append_right _ hs
  exact absurd ((h.isWord_of_class? he hmem (DottedName.plain_ofText text s hs)).symm.trans hword) (by simp)

theorem isClassifier_join (n : DottedName) : r.isClassifier (n.join text) = false := by
  obtain ⟨s, hs, hword⟩ := Text.exists_segment_of_foreign hforeign
  rw [isClassifier, isClass_join h hforeign, Bool.false_or, Option.isSome_eq_false_iff, Option.isNone_iff_eq_none,
    ← Option.not_isSome_iff_eq_none, Option.isSome_iff_exists]
  rintro ⟨a, ha⟩
  have hmem : s ∈ (n.join text).segments := List.mem_append_right _ hs
  exact absurd ((h.isWord_of_alias? ha hmem (DottedName.plain_ofText text s hs)).symm.trans hword) nofun

theorem samePackage_of_foreign (c : Context) : r.samePackage c text = none := by
  rw [samePackage, Option.filter_some, isClassifier_join h hforeign]
  rfl

theorem implicitPackage_of_foreign : r.implicitPackage text = none := by
  rw [implicitPackage, List.find?_eq_none]
  intro n hn
  obtain ⟨package, -, rfl⟩ := List.mem_map.mp hn
  simp [isClass_join h hforeign]

theorem enclosingScope_of_foreign (c : Context) : r.enclosingScope c text = none := by
  have hnested : ∀ outer, r.nestedIn text outer = none := fun outer => by
    simp only [nestedIn, class?_join h hforeign, Option.map_none]
  rw [enclosingScope, List.findSome?_eq_none_iff]
  intro scope _
  rw [inScope, hnested]
  cases r.extent with
  | linking => rfl
  | full => exact List.findSome?_eq_none_iff.mpr fun outer _ => hnested outer

theorem wildcardImport_of_foreign (c : Context) : r.wildcardImport c text = none := by
  rw [wildcardImport, List.find?_eq_none]
  intro n hn
  obtain ⟨i, -, rfl⟩ := List.mem_map.mp hn
  simp [isClassifier_join h hforeign]

end Registry

section Imports

variable {c : Context} (himports : ∀ i ∈ c.file.imports, i.IsOrdinary)

include himports

/-- The short name of an import is no text with a foreign character. -/
theorem isIdentifierPart_of_mem_plainImports {i : Import} (hi : i ∈ plainImports c) :
    ∀ d ∈ i.path.shortName.toList, isIdentifierPart d = true :=
  (himports i (List.mem_of_mem_filter hi)).shortName

include hforeign

theorem exactImport_of_foreign : r.exactImport c text = none := by
  have hnone : ((plainImports c).filter fun i => i.path.shortName = text) = [] := by
    rw [List.filter_eq_nil_iff]
    rintro i hi hshort
    obtain rfl : i.path.shortName = text := by simpa using hshort
    obtain ⟨d, hd, hpart, -⟩ := hforeign
    exact absurd ((isIdentifierPart_of_mem_plainImports himports hi d hd).symm.trans hpart) nofun
  rw [exactImport, hnone]
  rfl

theorem namedImport_of_foreign : namedImport c text = none := by
  rw [namedImport, Option.map_eq_none_iff, List.find?_eq_none]
  intro i hi hintroduced
  obtain ⟨d, hd, hpart, -⟩ := hforeign
  have hname : i.introduced? = some text := by simpa using hintroduced
  exact absurd (((himports i hi).introduced? hname d hd).symm.trans hpart) (by simp)

include h

/-- The import of the class that a text begins with is asked only if there are several, for a single one answers for the
path that the text mentions. -/
theorem outerImport_of_foreign {names : List String}
    (hcuts : ∀ cut, Text.cutFirst '.' text = some cut → (∀ d ∈ cut.1.toList, isIdentifierPart d = true) →
      ∃ more, more ≠ [] ∧ names = cut.1 :: more)
    (hpath : r.outerImport c (Text.joined '.' names) = none) : r.outerImport c text = none := by
  rw [outerImport]
  cases hcut : Text.cutFirst '.' text with
  | none => rfl
  | some cut =>
    rw [Option.bind_some]
    refine pick_eq_none (fun hone => ?_) fun n hn => ?_
    · rw [List.length_map] at hone
      obtain ⟨i, hi⟩ := List.length_eq_one_iff.mp hone
      have hmem : i ∈ (plainImports c).filter fun i => i.path.shortName = cut.1 := hi ▸ List.mem_singleton_self i
      obtain ⟨hplain, hshort⟩ := List.mem_filter.mp hmem
      have hpart : ∀ d ∈ cut.1.toList, isIdentifierPart d = true :=
        of_decide_eq_true hshort ▸ isIdentifierPart_of_mem_plainImports himports hplain
      obtain ⟨more, hmore, rfl⟩ := hcuts cut hcut hpart
      have hdot : '.' ∉ cut.1.toList :=
        fun hdot => absurd (Text.ne_dot_of_isIdentifierPart (hpart _ hdot)) (by decide)
      rw [outerImport, Text.joined_cons hmore, Text.cutFirst_append hdot, Option.bind_some, hi] at hpath
      contradiction
    · obtain ⟨i, -, rfl⟩ := List.mem_map.mp hn
      exact isClassifier_join h hforeign _

end Imports

end Foreign

variable {c : Context} (himports : ∀ i ∈ c.file.imports, i.IsOrdinary) {names : List String} {text : String}

include h himports

/-- A text that mentions a path is not found if the path is not. -/
theorem lookUp_of_mentions (hmentions : Text.Mentions names text)
    (hpath : r.lookUp c (Text.joined '.' names) = none) : r.lookUp c text = none := by
  rcases hmentions with rfl | ⟨hforeign, hcuts⟩
  · exact hpath
  have houter : r.outerImport c (Text.joined '.' names) = none := by
    rw [lookUp] at hpath
    simp only [Option.orElse_eq_orElse, Option.orElse_eq_or, Option.or_eq_none_iff] at hpath
    exact hpath.2.1
  rw [lookUp, exactImport_of_foreign hforeign himports, outerImport_of_foreign h hforeign himports hcuts houter,
    samePackage_of_foreign h hforeign, implicitPackage_of_foreign h hforeign, enclosingScope_of_foreign h hforeign,
    wildcardImport_of_foreign h hforeign, namedImport_of_foreign hforeign himports]
  rfl

end Resolver

/-! ## References as they are read -/

/-- Whether a type is read from a source file: where a type stands, as the name of an annotation, or before the `::class`
of a class literal. -/
inductive TypeRef.IsRead : TypeRef → Prop where
  | type {c c' : Cursor} {t : TypeRef} : c.InSource → TokenParser.type c = .ok t c' → IsRead t
  | annotation {c c' : Cursor} {start : Span} {useSite : Option Ident} {a : AnnotationUse} : c.InSource →
      TokenParser.annotationBody TokenParser.type TokenParser.value start useSite c = .ok a c' → IsRead a.type
  | classLiteral {c c' : Cursor} {t : TypeRef} {span : Span} : c.InSource →
      TokenParser.value c = .ok (.classLiteral (.type t) span) c' → IsRead t

/-- The text of a type that is read mentions the path of the named type that it is about. -/
theorem TypeRef.IsRead.mentions {t : TypeRef} (h : t.IsRead) {u : UserType} (ht : t.userType? = some u)
    (hwords : ∀ n ∈ u.names, isWord n.toList = true) : Text.Mentions u.names t.text := by
  cases h with
  | type hc h => exact TokenParser.mentions_of_type hc hwords ht h
  | annotation hc h => exact TokenParser.mentions_of_annotationBody hc hwords ht h
  | classLiteral hc h =>
    obtain ⟨u', helement, htext⟩ := TokenParser.text_of_value h
    rw [userType?, helement] at ht
    obtain rfl := Option.some.inj ht
    exact htext ▸ u'.mentions_render hwords

/-- Whether the type of a reference, of which the text counts, is read from a source file. -/
def Reference.IsRead : Reference → Prop
  | .typeRef t => t.IsRead
  | .annotationUse a => a.type.IsRead
  | _ => True

namespace Resolver

variable (r : Resolver) (c : Context) (names : List String)

/-- What a path stands for: the class of just these names, if they are several, or else what is found under its text. -/
def meant? : Option DottedName :=
  if 1 < names.length ∧ r.isClass ⟨names⟩ then some ⟨names⟩ else r.lookUp c (Text.joined '.' names)

/-- Whether an answer is the given name, or that the reference cannot be resolved if there is none. -/
def Answers : Option DottedName → Except AnalysisError DottedName → Prop
  | some found, answer => answer = .ok found
  | none, answer => ∃ text span, answer = .error (.unresolvable text c.file.name span)

variable {r c names}

theorem answers_resolveText {text : String} (span : Span) :
    Answers c (r.lookUp c text) (r.resolveText c text span) := by
  rw [resolveText]
  cases r.lookUp c text with
  | some found => exact rfl
  | none => exact ⟨text, span, rfl⟩

/-- A named type resolves to what its path stands for. -/
theorem answers_resolveUserType (u : UserType) (hplain : DottedName.Plain ⟨u.names⟩) :
    Answers c (r.meant? c u.names) (r.resolveUserType c u) := by
  have hqualifier : (!u.qualifier.isEmpty) = decide (1 < u.names.length) := by
    rw [UserType.names, UserType.segments, List.length_map, List.length_append, List.length_singleton]
    cases u.qualifier <;> simp
  have hdotted : DottedName.ofText u.pathText = ⟨u.names⟩ := hplain.ofText_text
  rw [resolveUserType, meant?, hqualifier, hdotted]
  by_cases hclass : 1 < u.names.length ∧ r.isClass ⟨u.names⟩ = true
  · rw [if_pos hclass, if_pos (by simpa using hclass)]
    exact rfl
  · rw [if_neg hclass, if_neg (by simpa using hclass)]
    exact answers_resolveText u.span

theorem lookUp_of_meant? (h : r.meant? c names = none) : r.lookUp c (Text.joined '.' names) = none := by
  rw [meant?] at h
  split at h
  · contradiction
  · exact h

section Ordinary

variable (h : r.registry.IsOrdinary) (himports : ∀ i ∈ c.file.imports, i.IsOrdinary)

include h himports

/-- A type that is read has no second chance. -/
theorem lookUp_text_of_isRead {t : TypeRef} (hread : t.IsRead) {u : UserType} (ht : t.userType? = some u)
    (hwords : ∀ n ∈ u.names, isWord n.toList = true) (hpath : r.meant? c u.names = none) : r.lookUp c t.text = none :=
  lookUp_of_mentions h himports (hread.mentions ht hwords) (lookUp_of_meant? hpath)

/-- So it resolves to what the path of its named type stands for. -/
theorem answers_resolveType {t : TypeRef} (hread : t.IsRead) {u : UserType} (ht : t.userType? = some u)
    (hwords : ∀ n ∈ u.names, isWord n.toList = true) : Answers c (r.meant? c u.names) (r.resolveType c t) := by
  have huser : Answers c (r.meant? c u.names) (r.resolveUserType c u) :=
    answers_resolveUserType u fun n hn => plain_of_isWord (hwords n hn)
  cases hmeant : r.meant? c u.names with
  | some found =>
    rw [hmeant] at huser
    exact r.resolveType_of_ok ht huser
  | none =>
    rw [hmeant] at huser
    obtain ⟨text, span, huser⟩ := huser
    rw [resolveType, r.resolveElement_of_userType? ht, huser,
      ← lookUp_text_of_isRead h himports hread ht hwords hmeant]
    exact answers_resolveText t.span

/-- A reference resolves to what its names stand for. -/
theorem answers_resolve {reference : Reference} (hnames : reference.Names names) (hread : reference.IsRead)
    (hwords : ∀ n ∈ names, isWord n.toList = true) : Answers c (r.meant? c names) (r.resolve c reference) := by
  have hplain : DottedName.Plain ⟨names⟩ := fun n hn => plain_of_isWord (hwords n hn)
  cases hnames with
  | name i =>
    have hjoined : Text.joined '.' [i.name] = i.name := String.intercalate_singleton
    rw [meant?, if_neg (by simp), hjoined]
    exact answers_resolveText i.span
  | @path p hsize =>
    have hlength : 1 < p.names.length := by rwa [Path.names, List.length_map]
    rw [resolve, resolvePath, meant?]
    by_cases hclass : r.isClass p.dotted = true
    · rw [if_pos hclass, if_pos ⟨hlength, hclass⟩]
      exact rfl
    · rw [if_neg hclass, if_neg fun hboth => hclass hboth.2]
      exact answers_resolveText p.span
  | userType u => exact answers_resolveUserType u hplain
  | typeRef ht => exact answers_resolveType h himports hread ht hwords
  | @nullable e u span he =>
    rw [resolve, r.resolveElement_of_userType? he]
    exact answers_resolveUserType u hplain
  | annotationUse ha => exact answers_resolveType h himports hread ha hwords

end Ordinary

/-- Where all names are ordinary, all references by the same names resolve to one name, or none of them can be resolved.
A type that is read from a source file and cannot be resolved by its element cannot be resolved by its text either. -/
theorem resolve_of_names (r : Resolver) (c : Context) (names : List String) (hregistry : r.registry.IsOrdinary)
    (himports : ∀ i ∈ c.file.imports, i.IsOrdinary) (hwords : ∀ n ∈ names, isWord n.toList = true) :
    ((∃ found, ∀ reference : Reference, reference.Names names → reference.IsRead →
        r.resolve c reference = .ok found) ∨
      ∀ reference : Reference, reference.Names names → reference.IsRead →
        ∃ text span, r.resolve c reference = .error (.unresolvable text c.file.name span)) ∧
    ∀ (t : TypeRef) (e : AnalysisError), t.IsRead → (Reference.typeRef t).Names names →
      r.resolveElement c t.element = .error e →
      r.resolveText c t.text t.span = .error (.unresolvable t.text c.file.name t.span) := by
  have hanswers : ∀ reference : Reference, reference.Names names → reference.IsRead →
      Answers c (r.meant? c names) (r.resolve c reference) :=
    fun reference hnames hread => answers_resolve hregistry himports hnames hread hwords
  refine ⟨?_, ?_⟩
  · cases hmeant : r.meant? c names with
    | some found =>
      rw [hmeant] at hanswers
      exact .inl ⟨found, hanswers⟩
    | none =>
      rw [hmeant] at hanswers
      exact .inr hanswers
  · intro t e hread hnames helement
    cases hnames with
    | @typeRef _ u ht =>
      have huser : Answers c (r.meant? c u.names) (r.resolveUserType c u) :=
        answers_resolveUserType u fun n hn => plain_of_isWord (hwords n hn)
      rw [← r.resolveElement_of_userType? ht, helement] at huser
      cases hmeant : r.meant? c u.names with
      | some found =>
        rw [hmeant] at huser
        contradiction
      | none => rw [resolveText, lookUp_text_of_isRead hregistry himports hread ht hwords hmeant]

end Resolver

/-! ## A class that is imported -/

namespace ImportedClass

/-- The class `p.X` is the only one. -/
def resolver : Resolver := ⟨Registry.empty.afterCalls [.registerClass ⟨⟨⟨["p"]⟩, ⟨["X"]⟩⟩, .class, .source⟩], .full⟩

/-- The import of `p.X`. -/
def import' : Import := ⟨⟨[⟨"p", default⟩, ⟨"X", default⟩], default⟩, false, none, default⟩

/-- A place outside all classes of a file that imports `p.X`. -/
def place : Context := ⟨⟨"T.kt", [], none, [import'], [], [], default⟩, []⟩

theorem isOrdinary_resolver : resolver.registry.IsOrdinary :=
  Registry.isOrdinary_afterCalls (List.forall_mem_singleton.mpr (by
    unfold RegistryCall.IsOrdinary DottedName.IsOrdinary
    decide))

theorem isOrdinary_place : ∀ i ∈ place.file.imports, i.IsOrdinary :=
  List.forall_mem_singleton.mpr ⟨by unfold DottedName.IsOrdinary; decide, nofun⟩

/-- A type about `X` with type arguments, an annotation, parentheses and a question mark can be read. -/
theorem exists_isRead :
    ∃ t : TypeRef, t.IsRead ∧ t.text = "(@A X<Y>)?" ∧ t.userType?.map UserType.names = some ["X"] := by
  have hparse : (match TokenParser.type (Parser.ofSource "(@A X<Y>)?").cursor with
      | .ok t _ => decide (t.text = "(@A X<Y>)?" ∧ t.userType?.map UserType.names = some ["X"])
      | .error _ _ => false) = true := by decide +kernel
  split at hparse
  · next t c' htype => exact ⟨t, .type ⟨_, 0, rfl⟩ htype, of_decide_eq_true hparse⟩
  · contradiction

/-- It means what `X` means. -/
theorem resolve_of_names_X : ∃ t : TypeRef, t.IsRead ∧ t.text = "(@A X<Y>)?" ∧
    resolver.resolve place (.typeRef t) = .ok ⟨["p", "X"]⟩ := by
  obtain ⟨t, hread, htext, hnames⟩ := exists_isRead
  obtain ⟨u, hu, hnames⟩ := Option.map_eq_some_iff.mp hnames
  refine ⟨t, hread, htext, ?_⟩
  obtain ⟨⟨found, hall⟩ | hnone, -⟩ :=
    Resolver.resolve_of_names resolver place ["X"] isOrdinary_resolver isOrdinary_place (by decide +kernel)
  · have hname := hall (.name ⟨"X", default⟩) (.name ⟨"X", default⟩) trivial
    rw [hall (.typeRef t) (hnames ▸ .typeRef hu) hread, ← hname]
    rfl
  · obtain ⟨text, span, hname⟩ := hnone (.name ⟨"X", default⟩) (.name ⟨"X", default⟩) trivial
    contradiction

end ImportedClass

end ServiceCatalog
