import ServiceCatalog.Proofs.Name.Written
import ServiceCatalog.Resolve.Basic

/-!
# Importing under another name

A class can be imported under its own name or under an alias, and a reference then uses the one or the other.
The two are not looked up alike.  An import without an alias is asked first, also for a dotted reference that
begins with the name of its class.  An alias is asked last, when nothing else answers to it, and only for a
reference that consists of it.

* `ImportRenaming`: a file in which one import is given an alias, with the references `Reference.Names`.
* `ImportRenaming.lookUp_after`, `ImportRenaming.lookUp_after_newName`: a file with an alias is one without the
  import, except for the alias itself.
* `ImportRenaming.resolve_renamed`: what a reference resolves to before and after.
* `ClassOfAlias.not_forall_resolve_eq`: a class of the file's package that has the name of the alias.
-/

namespace ServiceCatalog

/-! ## Several parts -/

namespace Text

/-- Of several parts the first one stands before a mark. -/
theorem joined_cons {mark : Char} {p : String} {ps : List String} (h : ps ≠ []) :
    joined mark (p :: ps) = p ++ String.singleton mark ++ joined mark ps := by
  obtain ⟨q, qs, rfl⟩ := List.exists_cons_of_ne_nil h
  apply String.toList_injective
  simp [toList_joined]

/-- Several parts are more than the first one. -/
theorem joined_cons_ne {mark : Char} {p : String} {ps : List String} (h : ps ≠ []) :
    joined mark (p :: ps) ≠ p := by
  intro heq
  have hlength := congrArg String.length heq
  rw [joined_cons h, String.length_append, String.length_append, String.length_singleton] at hlength
  omega

end Text

/-! ## References by their names -/

/-- The names of which a reference consists.  A path has several, for a single one is a name. -/
inductive Reference.Names : Reference → List String → Prop where
  | name (i : Ident) : Names (.name i) [i.name]
  | path {p : Path} : 1 < p.segments.length → Names (.path p) p.names
  | userType (u : UserType) : Names (.userType u) u.names
  | typeRef {t : TypeRef} {u : UserType} : t.userType? = some u → Names (.typeRef t) u.names
  | nullable {e : TypeElement} {u : UserType} (span : Span) : e.userType? = some u →
      Names (.nullable e span) u.names
  | annotationUse {a : AnnotationUse} {u : UserType} : a.type.userType? = some u →
      Names (.annotationUse a) u.names

namespace Resolver

variable (r : Resolver) {c c' : Context} {reference : Reference} {names : List String} {found : DottedName}

/-- The question marks of a type do not matter. -/
theorem resolveElement_of_userType? {e : TypeElement} {u : UserType} (h : e.userType? = some u) :
    r.resolveElement c e = r.resolveUserType c u := by
  fun_induction r.resolveElement c e with
  | case1 v => rw [Option.some.inj h]
  | case2 e ih => exact ih h
  | case3 span => exact absurd h nofun

/-- A type resolves to what its element resolves to. -/
theorem resolveType_of_ok {t : TypeRef} {u : UserType} (ht : t.userType? = some u)
    (hu : r.resolveUserType c u = .ok found) : r.resolveType c t = .ok found := by
  rw [resolveType, r.resolveElement_of_userType? ht, hu]

/-- A reference by one name resolves to what is found under it. -/
theorem resolve_of_lookUp {n : String} (hnames : reference.Names [n]) (h : r.lookUp c n = some found) :
    r.resolve c reference = .ok found := by
  have htype : ∀ u : UserType, u.names = [n] → r.resolveUserType c u = .ok found := by
    intro u hu
    have hqualifier : u.qualifier = [] := by
      have hlength := congrArg List.length hu
      simpa [UserType.names, UserType.segments] using hlength
    have htext : u.pathText = n := by rw [UserType.pathText, hu, Text.joined, String.intercalate_singleton]
    simp [resolveUserType, resolveText, hqualifier, htext, h]
  generalize hn : [n] = names at hnames
  cases hnames with
  | name i =>
    obtain rfl := List.singleton_inj.mp hn
    rw [resolve, resolveText, h]
  | path hp =>
    have hlength := congrArg List.length hn
    simp only [Path.names, List.length_map, List.length_singleton] at hlength
    omega
  | userType u => exact htype u hn.symm
  | typeRef ht => exact r.resolveType_of_ok ht (htype _ hn.symm)
  | nullable span he => exact (r.resolveElement_of_userType? he).trans (htype _ hn.symm)
  | annotationUse ha => exact r.resolveType_of_ok ha (htype _ hn.symm)

/-- A reference by several names resolves to the class of just these names or else to what is found under its
text. -/
theorem resolve_of_lookUp_joined (hnames : reference.Names names) (hsize : 1 < names.length)
    (hplain : DottedName.Plain ⟨names⟩) (h : r.lookUp c (Text.joined '.' names) = some found) :
    r.resolve c reference = .ok (if r.isClass ⟨names⟩ then ⟨names⟩ else found) := by
  have htype : ∀ u : UserType, u.names = names →
      r.resolveUserType c u = .ok (if r.isClass ⟨names⟩ then ⟨names⟩ else found) := by
    intro u hu
    have hqualifier : u.qualifier.isEmpty = false := by
      have hlength := congrArg List.length hu
      rw [UserType.names, UserType.segments, List.length_map, List.length_append, List.length_singleton]
        at hlength
      rw [List.isEmpty_eq_false_iff_exists_mem]
      exact List.exists_mem_of_length_pos (by omega)
    have htext : u.pathText = Text.joined '.' names := by rw [UserType.pathText, hu]
    have hdotted : DottedName.ofText u.pathText = ⟨names⟩ := by rw [htext]; exact hplain.ofText_text
    rw [resolveUserType, hqualifier, hdotted, htext, resolveText, h]
    split <;> simp_all
  cases hnames with
  | name i => exact absurd hsize (by simp)
  | path hp =>
    rw [resolve, resolvePath, resolveText, Path.text, h]
    exact (apply_ite Except.ok _ _ _).symm
  | userType u => exact htype u rfl
  | typeRef ht => exact r.resolveType_of_ok ht (htype _ rfl)
  | nullable span he => exact (r.resolveElement_of_userType? he).trans (htype _ rfl)
  | annotationUse ha => exact r.resolveType_of_ok ha (htype _ rfl)

/-- Where the names and the text of a reference are looked up alike, it resolves alike. -/
theorem resolve_congr_lookUp (hfile : c.file.name = c'.file.name) (hnames : reference.Names names)
    (hjoined : r.lookUp c (Text.joined '.' names) = r.lookUp c' (Text.joined '.' names))
    (htext : r.lookUp c reference.text = r.lookUp c' reference.text) :
    r.resolve c reference = r.resolve c' reference := by
  have hresolve : ∀ text span, r.lookUp c text = r.lookUp c' text →
      r.resolveText c text span = r.resolveText c' text span := by
    intro text span h
    rw [resolveText, resolveText, h, hfile]
  have htype : ∀ u : UserType, u.names = names → r.resolveUserType c u = r.resolveUserType c' u := by
    rintro u rfl
    rw [resolveUserType, resolveUserType, UserType.pathText, hresolve _ _ hjoined]
  cases hnames with
  | name i => exact hresolve _ _ htext
  | path hp => rw [resolve, resolve, resolvePath, resolvePath, Path.text, hresolve _ _ hjoined]
  | userType u => exact htype u rfl
  | @typeRef t _ ht =>
    rw [resolve, resolve, resolveType, resolveType, r.resolveElement_of_userType? ht,
      r.resolveElement_of_userType? ht, htype _ rfl, hresolve t.text _ htext]
  | nullable span he =>
    rw [resolve, resolve, r.resolveElement_of_userType? he, r.resolveElement_of_userType? he, htype _ rfl]
  | @annotationUse a _ ha =>
    rw [resolve, resolve, resolveType, resolveType, r.resolveElement_of_userType? ha,
      r.resolveElement_of_userType? ha, htype _ rfl, hresolve a.type.text _ htext]

end Resolver

/-! ## The two files -/

/-- A file with an import that is given an alias: the file without it, the imports before and behind it, what it
imports and the alias.  No other import introduces the short name of what it imports, or the alias, and the names
that imports introduce are free of dots. -/
structure ImportRenaming where
  file : SourceFile
  front : List Import
  back : List Import
  path : Path
  span : Span
  newName : Ident
  shortName_ne : path.shortName ≠ ""
  dot_notMem : '.' ∉ path.shortName.toList
  dot_notMem_others : ∀ i ∈ front ++ back, ∀ n, i.introduced? = some n → '.' ∉ n.toList
  only_import : ∀ i ∈ front ++ back, i.introduced? ≠ some path.shortName
  new : ∀ i ∈ front ++ back, i.introduced? ≠ some newName.name

namespace ImportRenaming

variable (ρ : ImportRenaming)

/-- The short name of what is imported. -/
def oldName : String := ρ.path.shortName

/-- The imported name. -/
def target : DottedName := ρ.path.dotted

/-- The file with the import under the own name of its class. -/
def before : SourceFile := { ρ.file with imports := ρ.front ++ ⟨ρ.path, false, none, ρ.span⟩ :: ρ.back }

/-- The file with the import under the alias. -/
def after : SourceFile :=
  { ρ.file with imports := ρ.front ++ ⟨ρ.path, false, some ρ.newName, ρ.span⟩ :: ρ.back }

/-- The file without the import. -/
def without : SourceFile := { ρ.file with imports := ρ.front ++ ρ.back }

variable (r : Resolver) (scopes : List ClassName)

/-! ## Under the alias -/

theorem plainImports_after :
    Resolver.plainImports ⟨ρ.after, scopes⟩ = Resolver.plainImports ⟨ρ.without, scopes⟩ := by
  simp [Resolver.plainImports, after, without]

theorem wildcardImports_after :
    Resolver.wildcardImports ⟨ρ.after, scopes⟩ = Resolver.wildcardImports ⟨ρ.without, scopes⟩ := by
  simp [Resolver.wildcardImports, after, without]

theorem namedImport_after {text : String} (h : text ≠ ρ.newName.name) :
    Resolver.namedImport ⟨ρ.after, scopes⟩ text = Resolver.namedImport ⟨ρ.without, scopes⟩ text := by
  have hnot : ¬ ρ.newName.name = text := Ne.symm h
  simp [Resolver.namedImport, after, without, Import.introduced?, List.find?_append, hnot]

theorem namedImport_after_newName :
    Resolver.namedImport ⟨ρ.after, scopes⟩ ρ.newName.name = some ρ.target := by
  have hfront : ρ.front.find? (fun i => decide (i.introduced? = some ρ.newName.name)) = none := by
    rw [List.find?_eq_none]
    intro i hi
    simpa using ρ.new i (List.mem_append_left _ hi)
  have hself : (⟨ρ.path, false, some ρ.newName, ρ.span⟩ : Import).introduced? = some ρ.newName.name := rfl
  rw [Resolver.namedImport, after, List.find?_append, hfront, Option.none_or]
  simp only [List.find?_cons, hself, decide_true]
  rfl

theorem namedImport_without_newName :
    Resolver.namedImport ⟨ρ.without, scopes⟩ ρ.newName.name = none := by
  have hnone : ρ.without.imports.find? (fun i => decide (i.introduced? = some ρ.newName.name)) = none := by
    rw [List.find?_eq_none]
    intro i hi
    simpa using ρ.new i hi
  rw [Resolver.namedImport, hnone, Option.map_none]

/-- What comes before the names of imports is the same with an import under an alias and without it. -/
theorem lookUp_after_eq (text : String) :
    r.lookUp ⟨ρ.after, scopes⟩ text =
      (r.exactImport ⟨ρ.without, scopes⟩ text <|> r.outerImport ⟨ρ.without, scopes⟩ text <|>
        r.samePackage ⟨ρ.without, scopes⟩ text <|> r.implicitPackage text <|>
        r.enclosingScope ⟨ρ.without, scopes⟩ text <|> r.wildcardImport ⟨ρ.without, scopes⟩ text <|>
        Resolver.namedImport ⟨ρ.after, scopes⟩ text) := by
  simp only [Resolver.lookUp, Resolver.exactImport, Resolver.outerImport, Resolver.wildcardImport,
    plainImports_after, wildcardImports_after]
  rfl

/-- Only the alias itself is looked up otherwise than without the import. -/
theorem lookUp_after {text : String} (h : text ≠ ρ.newName.name) :
    r.lookUp ⟨ρ.after, scopes⟩ text = r.lookUp ⟨ρ.without, scopes⟩ text := by
  rw [lookUp_after_eq, ρ.namedImport_after scopes h, Resolver.lookUp]

/-- The alias is what else it is, and the imported name if it is nothing else. -/
theorem lookUp_after_newName :
    r.lookUp ⟨ρ.after, scopes⟩ ρ.newName.name =
      some ((r.lookUp ⟨ρ.without, scopes⟩ ρ.newName.name).getD ρ.target) := by
  rw [lookUp_after_eq, namedImport_after_newName, Resolver.lookUp, namedImport_without_newName]
  simp only [Option.orElse_eq_orElse, Option.orElse_eq_or, Option.or_none, Option.or_some, Option.getD_or]

/-! ## Under the own name -/

/-- An import without an alias introduces the short name of what it imports. -/
theorem introduced?_of_plain {i : Import} (h : (!i.isWildcard && i.localName.isNone) = true) :
    i.introduced? = some i.path.shortName := by
  obtain ⟨hwildcard, hlocal⟩ : i.isWildcard = false ∧ i.localName = none := by simpa using h
  rw [Import.introduced?, hwildcard, hlocal]
  rfl

/-- The import is the only one of its short name without an alias. -/
theorem plainImports_before :
    ((Resolver.plainImports ⟨ρ.before, scopes⟩).filter fun i => i.path.shortName = ρ.oldName) =
      [⟨ρ.path, false, none, ρ.span⟩] := by
  have hnone : ∀ l : List Import, (∀ i ∈ l, i ∈ ρ.front ++ ρ.back) →
      (l.filter fun i => !i.isWildcard && i.localName.isNone).filter
        (fun i => decide (i.path.shortName = ρ.oldName)) = [] := by
    intro l hl
    rw [List.filter_eq_nil_iff]
    intro i hi
    obtain ⟨hmem, hplain⟩ := List.mem_filter.mp hi
    rw [decide_eq_true_eq]
    intro hshort
    exact ρ.only_import i (hl i hmem) (by rw [introduced?_of_plain hplain, hshort, oldName])
  have hfront := hnone ρ.front fun i hi => List.mem_append_left _ hi
  have hback := hnone ρ.back fun i hi => List.mem_append_right _ hi
  have hself : ([⟨ρ.path, false, none, ρ.span⟩] : List Import).filter
      (fun i => !i.isWildcard && i.localName.isNone) = [⟨ρ.path, false, none, ρ.span⟩] := rfl
  have hname : ([⟨ρ.path, false, none, ρ.span⟩] : List Import).filter
      (fun i => decide (i.path.shortName = ρ.oldName)) = [⟨ρ.path, false, none, ρ.span⟩] := by
    simp [oldName]
  rw [Resolver.plainImports, before, List.append_cons]
  simp only [List.filter_append, hfront, hself, hname, hback, List.nil_append, List.append_nil]

/-- The own name is the imported name. -/
theorem lookUp_before : r.lookUp ⟨ρ.before, scopes⟩ ρ.oldName = some ρ.target := by
  have hexact : r.exactImport ⟨ρ.before, scopes⟩ ρ.oldName = some ρ.target := by
    rw [Resolver.exactImport, plainImports_before]
    rfl
  rw [Resolver.lookUp, hexact]
  rfl

/-- Behind the package of what is imported, a text that begins with the own name goes on from there. -/
theorem join_target_parent {rest : List String} (h : DottedName.Plain ⟨ρ.oldName :: rest⟩) :
    ρ.target.parent.join (Text.joined '.' (ρ.oldName :: rest)) = ρ.target ++ ⟨rest⟩ := by
  have hsegments : ρ.path.names ≠ [] := by
    intro hnil
    exact ρ.shortName_ne (by rw [Path.shortName, hnil]; rfl)
  have hlast : ρ.path.names.dropLast ++ [ρ.oldName] = ρ.path.names := by
    rw [oldName, Path.shortName, List.getLastD_eq_getLast?, List.getLast?_eq_some_getLast hsegments,
      Option.getD_some]
    exact List.dropLast_concat_getLast hsegments
  have hjoined : DottedName.ofText (Text.joined '.' (ρ.oldName :: rest)) = ⟨ρ.oldName :: rest⟩ := h.ofText_text
  have hsplit : ρ.path.names.dropLast ++ ρ.oldName :: rest = ρ.path.names ++ rest := by
    rw [List.append_cons, hlast]
  rw [DottedName.join_eq_append, hjoined]
  exact congrArg DottedName.mk hsplit

/-- No import ends in a dotted text. -/
theorem exactImport_before {rest : List String} (hrest : rest ≠ []) :
    r.exactImport ⟨ρ.before, scopes⟩ (Text.joined '.' (ρ.oldName :: rest)) = none := by
  have hdot : '.' ∈ (Text.joined '.' (ρ.oldName :: rest)).toList := by
    rw [Text.joined_cons hrest]
    simp
  have hnone : ((Resolver.plainImports ⟨ρ.before, scopes⟩).filter
      fun i => i.path.shortName = Text.joined '.' (ρ.oldName :: rest)) = [] := by
    rw [List.filter_eq_nil_iff]
    intro i hi
    obtain ⟨hmem, hplain⟩ := List.mem_filter.mp hi
    rw [decide_eq_true_eq]
    intro hshort
    rw [← hshort] at hdot
    rcases List.mem_append.mp hmem with hfront | hback
    · exact ρ.dot_notMem_others i (List.mem_append_left _ hfront) _ (introduced?_of_plain hplain) hdot
    · rcases List.mem_cons.mp hback with rfl | hback
      · exact ρ.dot_notMem hdot
      · exact ρ.dot_notMem_others i (List.mem_append_right _ hback) _ (introduced?_of_plain hplain) hdot
  rw [Resolver.exactImport, hnone]
  rfl

/-- A dotted text that begins with the own name goes on from the imported name. -/
theorem lookUp_before_joined {rest : List String} (hrest : rest ≠ [])
    (h : DottedName.Plain ⟨ρ.oldName :: rest⟩) :
    r.lookUp ⟨ρ.before, scopes⟩ (Text.joined '.' (ρ.oldName :: rest)) = some (ρ.target ++ ⟨rest⟩) := by
  have hcut : Text.cutFirst '.' (Text.joined '.' (ρ.oldName :: rest)) =
      some (ρ.oldName, Text.joined '.' rest) := by
    rw [Text.joined_cons hrest]
    exact Text.cutFirst_append ρ.dot_notMem _
  have houter : r.outerImport ⟨ρ.before, scopes⟩ (Text.joined '.' (ρ.oldName :: rest)) =
      some (ρ.target ++ ⟨rest⟩) := by
    rw [Resolver.outerImport, hcut, Option.bind_some, plainImports_before, ← ρ.join_target_parent h]
    rfl
  rw [Resolver.lookUp, ρ.exactImport_before r scopes hrest, houter]
  rfl

/-! ## Before and after -/

/-- A reference by the own name is the imported name, and the alias in its place is what else it is, or the
imported name if it is nothing else.  A dotted reference that begins with the own name goes on from the imported
name, unless a class has just this name; with the alias in its place it is as without the import. -/
theorem resolve_renamed (ρ : ImportRenaming) (r : Resolver) (scopes : List ClassName) :
    (∀ reference : Reference, reference.Names [ρ.oldName] →
      r.resolve ⟨ρ.before, scopes⟩ reference = .ok ρ.target) ∧
    (∀ reference : Reference, reference.Names [ρ.newName.name] →
      r.resolve ⟨ρ.after, scopes⟩ reference =
        .ok ((r.lookUp ⟨ρ.without, scopes⟩ ρ.newName.name).getD ρ.target)) ∧
    ∀ rest : List String, rest ≠ [] → DottedName.Plain ⟨rest⟩ →
      (∀ reference : Reference, reference.Names (ρ.oldName :: rest) →
        r.resolve ⟨ρ.before, scopes⟩ reference =
          .ok (if r.isClass ⟨ρ.oldName :: rest⟩ then ⟨ρ.oldName :: rest⟩ else ρ.target ++ ⟨rest⟩)) ∧
      ∀ reference : Reference, reference.Names (ρ.newName.name :: rest) →
        reference.text ≠ ρ.newName.name →
        r.resolve ⟨ρ.after, scopes⟩ reference = r.resolve ⟨ρ.without, scopes⟩ reference := by
  refine ⟨fun reference hnames => ?own, fun reference hnames => ?newName, fun rest hrest hplain =>
    ⟨fun reference hnames => ?ownDotted, fun reference hnames htext => ?newNameDotted⟩⟩
  case own => exact r.resolve_of_lookUp hnames (ρ.lookUp_before r scopes)
  case newName => exact r.resolve_of_lookUp hnames (ρ.lookUp_after_newName r scopes)
  case ownDotted =>
    have hplain' : DottedName.Plain ⟨ρ.oldName :: rest⟩ :=
      List.forall_mem_cons.mpr ⟨⟨ρ.shortName_ne, ρ.dot_notMem⟩, hplain⟩
    have hsize : 1 < (ρ.oldName :: rest).length := by
      have hpos := List.length_pos_iff.mpr hrest
      rw [List.length_cons]
      omega
    exact r.resolve_of_lookUp_joined hnames hsize hplain' (ρ.lookUp_before_joined r scopes hrest hplain')
  case newNameDotted =>
    have hjoined : Text.joined '.' (ρ.newName.name :: rest) ≠ ρ.newName.name := Text.joined_cons_ne hrest
    exact r.resolve_congr_lookUp rfl hnames (ρ.lookUp_after r scopes hjoined) (ρ.lookUp_after r scopes htext)

end ImportRenaming

/-! ## A class with the name of the alias -/

namespace ClassOfAlias

/-- A name without a place. -/
def ident (name : String) : Ident := ⟨name, default⟩

/-- In the package `a`, the import of `p.X` is given the alias `Y`. -/
def changed : ImportRenaming where
  file := ⟨"T.kt", [], some ⟨[ident "a"], default⟩, [], [], [], default⟩
  front := []
  back := []
  path := ⟨[ident "p", ident "X"], default⟩
  span := default
  newName := ident "Y"
  shortName_ne := by decide
  dot_notMem := by decide
  dot_notMem_others := by simp
  only_import := by simp
  new := by simp

/-- The package `a` holds a class `Y`. -/
def resolver : Resolver := ⟨Registry.empty.putClass ⟨⟨⟨["a"]⟩, ⟨["Y"]⟩⟩, .class, .source⟩, .full⟩

/-- The reference `X.In` or `Y.In`. -/
def inner (outer : String) : Reference := .path ⟨[ident outer, ident "In"], default⟩

/-- The class of the package answers to the alias, and the alias opens no scope. -/
theorem resolve_renamed_class :
    resolver.resolve ⟨changed.before, []⟩ (.name (ident "X")) = .ok ⟨["p", "X"]⟩ ∧
      resolver.resolve ⟨changed.after, []⟩ (.name (ident "Y")) = .ok ⟨["a", "Y"]⟩ ∧
      resolver.resolve ⟨changed.before, []⟩ (inner "X") = .ok ⟨["p", "X", "In"]⟩ ∧
      resolver.resolve ⟨changed.after, []⟩ (inner "Y") = .error (.unresolvable "Y.In" "T.kt" default) := by
  obtain ⟨hown, hnew, hdotted⟩ := ImportRenaming.resolve_renamed changed resolver []
  obtain ⟨hownDotted, hnewDotted⟩ := hdotted ["In"] (by decide) (by unfold DottedName.Plain; decide)
  refine ⟨hown _ (.name (ident "X")), (hnew _ (.name (ident "Y"))).trans ?_,
    (hownDotted _ (.path (by decide))).trans ?_, (hnewDotted _ (.path (by decide)) (by decide)).trans ?_⟩
  · decide
  · decide
  · rfl

/-- Giving an import an alias can change what a reference by its name resolves to, and a dotted reference. -/
theorem not_forall_resolve_eq :
    (¬ ∀ (ρ : ImportRenaming) (r : Resolver) (scopes : List ClassName) (span : Span),
      r.resolve ⟨ρ.after, scopes⟩ (.name ⟨ρ.newName.name, span⟩) =
        r.resolve ⟨ρ.before, scopes⟩ (.name ⟨ρ.oldName, span⟩)) ∧
    ¬ ∀ (ρ : ImportRenaming) (r : Resolver) (scopes : List ClassName) (rest : Ident) (span : Span),
      r.resolve ⟨ρ.after, scopes⟩ (.path ⟨[ρ.newName, rest], span⟩) =
        r.resolve ⟨ρ.before, scopes⟩ (.path ⟨[⟨ρ.oldName, ρ.newName.span⟩, rest], span⟩) := by
  constructor
  · intro h
    have hresolve : resolver.resolve ⟨changed.after, []⟩ (.name (ident "Y")) =
        resolver.resolve ⟨changed.before, []⟩ (.name (ident "X")) := h changed resolver [] default
    have hnew : resolver.resolve ⟨changed.after, []⟩ (.name (ident "Y")) = .ok ⟨["a", "Y"]⟩ := by rfl
    have hown : resolver.resolve ⟨changed.before, []⟩ (.name (ident "X")) = .ok ⟨["p", "X"]⟩ := by rfl
    rw [hnew, hown] at hresolve
    exact absurd (Except.ok.inj hresolve) (by decide)
  · intro h
    have hresolve : resolver.resolve ⟨changed.after, []⟩ (inner "Y") =
        resolver.resolve ⟨changed.before, []⟩ (inner "X") := h changed resolver [] (ident "In") default
    have hnew : resolver.resolve ⟨changed.after, []⟩ (inner "Y") =
        .error (.unresolvable "Y.In" "T.kt" default) := by rfl
    have hown : resolver.resolve ⟨changed.before, []⟩ (inner "X") = .ok ⟨["p", "X", "In"]⟩ := by rfl
    rw [hnew, hown] at hresolve
    exact absurd hresolve nofun

end ClassOfAlias

end ServiceCatalog
