import ServiceCatalog.Proofs.Parse.WrittenHeads

/-!
# Written files are read back

A declaration is read from its annotations to the brace that closes its body, and what is read is the declaration
that was written.  Declarations contain each other, so the step is one declaration over a reader of bodies with
fewer tokens, and the run is by induction on the number of tokens to come.

* `reads_member`: one declaration.
* `reads_members`: a forest of declarations, in a body or in a file.
* `parse_text`: a whole file, from its characters.
-/

namespace ServiceCatalog

/-- The tokens of a forest of declarations. -/
def DeclForm.spellAll (ownLines : Bool) (ds : List DeclForm) : List Spelling :=
  (ds.flatMap (DeclForm.lines ownLines)).flatten

/-- The tokens of a forest, from those of its first declaration. -/
theorem DeclForm.spellAll_cons (ownLines : Bool) (as : List AnnotationForm) (before behind : List PlainModifier)
    (heading : HeadingForm) (ts : List TypeForm) (inner ds : List DeclForm) (zs : List Spelling) :
    spellAll ownLines (⟨as, before, behind, heading, ts, inner⟩ :: ds) ++ zs =
      as.flatMap AnnotationForm.spell ++ ((allModifiers before behind heading).map ModifierForm.spelling ++
        heading.kind.spellKeyword :: (heading.spellName ++ (TypeForm.spellSupertypes ts ++ .mark .leftBrace ::
          (spellAll ownLines inner ++ .mark .rightBrace :: (spellAll ownLines ds ++ zs))))) := by
  rw [spellAll, List.flatMap_cons, lines]
  cases ownLines <;> simp [spellAll, spellHead, List.flatMap_def]

theorem ClassKind.beginsClass (kind : ClassKind) (xs : List Spelling) :
    TokenParser.BeginsClass (kind.spellKeyword :: xs) := by
  have hkeyword : kind.spellKeyword.kind ∈ [.class, .interface, .object] := by cases kind <;> decide
  exact hkeyword

/-- A declaration has a token. -/
theorem DeclForm.length_spellAll_lt (ownLines : Bool) (d : DeclForm) (ds : List DeclForm) (zs : List Spelling) :
    (spellAll ownLines ds ++ zs).length < (spellAll ownLines (d :: ds) ++ zs).length := by
  obtain ⟨as, before, behind, heading, ts, inner⟩ := d
  rw [spellAll_cons]
  simp only [List.length_append, List.length_cons]
  omega

/-- A declaration begins with an annotation, a modifier or its keyword. -/
theorem DeclForm.headKind_spellAll (ownLines : Bool) (d : DeclForm) (ds : List DeclForm) (zs : List Spelling) :
    headKind (spellAll ownLines (d :: ds) ++ zs) ∈ [.at, .identifier, .class, .interface, .object] := by
  obtain ⟨as, before, behind, heading, ts, inner⟩ := d
  rw [spellAll_cons]
  cases as with
  | nil => exact .tail _ (TokenParser.endsModifier_modifiers _ (heading.kind.beginsClass _))
  | cons a as => exact .head _

namespace Parser

open TokenParser

/-- Whether certain tokens are to come at a parser, and no error is recorded. -/
structure At (p : Parser) (ss : List Spelling) : Prop where
  cursor : p.cursor.At ss
  errors : p.errors = []

theorem always_eq_ok {α : Type} {f : Parser → α × Parser} {p p' : Parser} {a : α} :
    always f p = .ok a p' ↔ f p = (a, p') := by
  rw [always, EStateM.Result.ok.injEq, Prod.ext_iff]

/-- A token parser records no errors. -/
theorem reads_reading {α : Type} {t : TokenParser α} {xs ys : List Spelling} {P : α → Prop}
    (ht : TokenParser.Reads t xs ys P) : ReadsFrom At (reading t) xs ys P := by
  intro p hp
  obtain ⟨a, c, hok, hc, ha⟩ := ht p.cursor hp.cursor
  exact ⟨a, ⟨c, p.errors⟩, by rw [reading, hok], ⟨hc, hp.errors⟩, ha⟩

/-! ## One declaration -/

/-- Whether members that were read are the declarations that were written. -/
def AreMembers (ds : List DeclForm) (found : List Member) : Prop :=
  ∃ classes, found = classes.map Member.class ∧ List.Forall₂ DeclForm.Matches ds classes

theorem filterMap_class? (classes : List ClassDecl) : (classes.map Member.class).filterMap Member.class? = classes := by
  rw [List.filterMap_map, show Member.class? ∘ Member.class = some from rfl, List.filterMap_some]

theorem filterMap_typeAlias? (classes : List ClassDecl) :
    (classes.map Member.class).filterMap Member.typeAlias? = [] := by
  rw [List.filterMap_map, show Member.typeAlias? ∘ Member.class = fun _ => none from rfl, List.filterMap_none]

section Body

variable {ownLines : Bool} {body : Parser → List Member × Parser} {n : Nat}
  (hbody : ∀ (inner : List DeclForm) (zs : List Spelling), headKind zs = .rightBrace →
    (DeclForm.spellAll ownLines inner ++ zs).length < n →
    ReadsFrom At (always body) (DeclForm.spellAll ownLines inner ++ zs) zs (AreMembers inner))

include hbody

theorem reads_classBody (inner : List DeclForm) {zs : List Spelling}
    (hn : (DeclForm.spellAll ownLines inner ++ .mark .rightBrace :: zs).length < n) :
    ReadsFrom At (classBody body) (.mark .leftBrace :: (DeclForm.spellAll ownLines inner ++ .mark .rightBrace :: zs)) zs
      (List.Forall₂ DeclForm.Matches inner) := by
  refine .bind (P := (· = true)) (reads_reading fun c hc => ⟨_, c, rfl, hc, hc.isAt_of_eq rfl⟩) fun _ h => ?_
  subst h
  refine .bind (reads_reading .next) fun _ _ => .bind (hbody inner _ rfl hn) fun found hfound =>
    .bind (reads_reading (.expect rfl)) fun _ _ => .pure ?_
  obtain ⟨classes, rfl, hclasses⟩ := hfound
  rw [filterMap_class?]
  exact hclasses

theorem reads_classFrom (start : Span) (uses : List AnnotationUse) (as : List AnnotationForm)
    (before behind : List PlainModifier) (heading : HeadingForm) (ts : List TypeForm) (inner : List DeclForm)
    {zs : List Spelling}
    (huses : List.Forall₂ AnnotationForm.Matches as uses)
    (hn : (DeclForm.spellAll ownLines inner ++ .mark .rightBrace :: zs).length < n) :
    ReadsFrom At (classFrom body start heading.kind uses)
      (heading.kind.spellKeyword :: (heading.spellName ++ (TypeForm.spellSupertypes ts ++ .mark .leftBrace ::
        (DeclForm.spellAll ownLines inner ++ .mark .rightBrace :: zs)))) zs
      (DeclForm.Matches ⟨as, before, behind, heading, ts, inner⟩) :=
  .bind (reads_reading (reads_classHead heading ts rfl)) fun _ h => .bind (reads_classBody hbody inner hn)
    fun _ hclasses => .bind (reads_reading (.spanFrom _)) fun _ _ => .pure (.mk h.1 huses h.2 hclasses)

/-- One declaration, if those in its body are read. -/
theorem reads_member (d : DeclForm) (ds : List DeclForm) {zs : List Spelling}
    (hn : (DeclForm.spellAll ownLines (d :: ds) ++ zs).length ≤ n) :
    ReadsFrom At (member body) (DeclForm.spellAll ownLines (d :: ds) ++ zs) (DeclForm.spellAll ownLines ds ++ zs)
      fun m => ∃ c, m = some (.class c) ∧ d.Matches c := by
  obtain ⟨as, before, behind, heading, ts, inner⟩ := d
  rw [DeclForm.spellAll_cons] at hn ⊢
  have hinner : (DeclForm.spellAll ownLines inner ++
      .mark .rightBrace :: (DeclForm.spellAll ownLines ds ++ zs)).length < n := by
    simp only [List.length_append, List.length_cons] at hn ⊢
    omega
  have hkeyword := heading.kind.beginsClass (heading.spellName ++ (TypeForm.spellSupertypes ts ++ .mark .leftBrace ::
    (DeclForm.spellAll ownLines inner ++ .mark .rightBrace :: (DeclForm.spellAll ownLines ds ++ zs))))
  have hpreamble := reads_preamble as (DeclForm.allModifiers before behind heading) hkeyword
  refine .bind (reads_reading .nextSpan) fun start _ => .bind (reads_reading hpreamble) fun preamble huses =>
    .bind (reads_reading .here) fun here hhere => ?_
  obtain ⟨huses, hmodifiers⟩ := huses
  have hthere : here.isAt .typealias = false := hhere.isAt_of_ne (ne_of_mem_of_not_mem hkeyword (by decide))
  rw [hthere, if_neg Bool.false_ne_true, hmodifiers, classKind?_eq_some before behind heading hhere]
  exact .bind (reads_classFrom hbody start preamble.annotations as before behind heading ts inner huses hinner)
    fun c hc => .pure ⟨c, rfl, hc⟩

/-- What comes next among members is a declaration, if one was written there. -/
theorem memberStep_eq (d : DeclForm) (ds : List DeclForm) {zs : List Spelling} {p : Parser}
    (hn : (DeclForm.spellAll ownLines (d :: ds) ++ zs).length ≤ n)
    (hp : p.At (DeclForm.spellAll ownLines (d :: ds) ++ zs)) :
    ∃ c p', memberStep body p = (some (.class c), p') ∧ p'.At (DeclForm.spellAll ownLines ds ++ zs) ∧ d.Matches c := by
  obtain ⟨_, p', hok, hp', c, rfl, hc⟩ := reads_member hbody d ds hn p hp
  have hkind := d.headKind_spellAll ownLines ds zs
  have hbrace : p.cursor.isAt .rightBrace = false := hp.cursor.isAt_of_ne (ne_of_mem_of_not_mem hkind (by decide))
  have hsemicolon : p.cursor.isAt .semicolon = false := hp.cursor.isAt_of_ne (ne_of_mem_of_not_mem hkind (by decide))
  refine ⟨c, p', ?_, hp', hc⟩
  rw [memberStep, hbrace, hsemicolon, hok]
  rfl

end Body

/-! ## Forests of declarations -/

/-- Whether a list of members ends before the tokens to come. -/
def EndsForest (inBody : Bool) (zs : List Spelling) : Prop :=
  headKind zs = .eof ∨ inBody = true ∧ headKind zs = .rightBrace

/-- Declarations are read up to the end of their body or of the file, by induction on the number of tokens to
come. -/
theorem reads_members (ownLines inBody : Bool) (ds : List DeclForm) {zs : List Spelling} (hzs : EndsForest inBody zs) :
    ReadsFrom At (always (members inBody)) (DeclForm.spellAll ownLines ds ++ zs) zs (AreMembers ds) := by
  generalize hn : (DeclForm.spellAll ownLines ds ++ zs).length = n
  induction n using Nat.strongRecOn generalizing inBody ds zs with
  | ind n ih =>
    subst hn
    intro p hp
    cases ds with
    | nil =>
      have hends : endsMembers inBody p.cursor = true := by
        rcases hzs with h | ⟨rfl, h⟩
        · rw [endsMembers, Cursor.isAtEnd, hp.cursor.isAt_of_eq h, Bool.true_or]
        · rw [endsMembers, hp.cursor.isAt_of_eq h, Bool.true_and, Bool.or_true]
      exact ⟨[], p, always_eq_ok.mpr (by rw [members, if_pos hends]), hp, [], rfl, .nil⟩
    | cons d ds =>
      have hkind := d.headKind_spellAll ownLines ds zs
      have hends : endsMembers inBody p.cursor = false := by
        rw [endsMembers, Cursor.isAtEnd, hp.cursor.isAt_of_ne (ne_of_mem_of_not_mem hkind (by decide)),
          hp.cursor.isAt_of_ne (ne_of_mem_of_not_mem hkind (by decide)), Bool.and_false, Bool.or_false]
      have hbody : ∀ (inner : List DeclForm) (zs' : List Spelling), headKind zs' = .rightBrace →
          (DeclForm.spellAll ownLines inner ++ zs').length < (DeclForm.spellAll ownLines (d :: ds) ++ zs).length →
          ReadsFrom At (always fun q => if q.cursor.size < p.cursor.size then members true q else ([], q))
            (DeclForm.spellAll ownLines inner ++ zs') zs' (AreMembers inner) := by
        intro inner zs' hzs' hless q hq
        have hsize : q.cursor.size < p.cursor.size := by
          rw [hq.cursor.size, hp.cursor.size]
          exact hless
        obtain ⟨found, q', hok, hq', hfound⟩ := ih _ hless true inner (.inr ⟨rfl, hzs'⟩) rfl q hq
        exact ⟨found, q', always_eq_ok.mpr (by rw [if_pos hsize, always_eq_ok.mp hok]), hq', hfound⟩
      obtain ⟨c, p', hstep, hp', hc⟩ := memberStep_eq hbody d ds (Nat.le_refl _) hp
      have hshorter := d.length_spellAll_lt ownLines ds zs
      have hless : p'.cursor.size < p.cursor.size := by
        rw [hp.cursor.size, hp'.cursor.size]
        exact hshorter
      obtain ⟨found, p'', hok, hp'', classes, rfl, hclasses⟩ := ih _ hshorter inBody ds hzs rfl p' hp'
      refine ⟨(c :: classes).map .class, p'', always_eq_ok.mpr ?_, hp'', c :: classes, rfl, .cons hc hclasses⟩
      rw [members, hends, if_neg Bool.false_ne_true, hstep]
      simp only [if_pos hless, always_eq_ok.mp hok]
      rfl

/-! ## Files -/

/-- The package header, if one was written. -/
theorem reads_package (package : Option DottedForm) {zs : List Spelling} (hzs : EndsHeader zs) :
    ReadsFrom At (always package?) (package.toList.flatMap (fun d => .word "package" :: d.spell) ++ zs) zs
      fun found => found.map Path.names = package.map DottedForm.names := by
  intro p hp
  cases package with
  | none =>
    refine ⟨none, p, always_eq_ok.mpr ?_, hp, rfl⟩
    rw [package?, hp.cursor.isAt_of_ne (ne_of_mem_of_not_mem hzs (by decide)), if_neg Bool.false_ne_true]
  | some d =>
    rw [Option.toList_some, List.flatMap_singleton] at hp
    obtain ⟨path, p', hok, hp', hpath⟩ := reads_reading (reads_packageHeader d hzs) p hp
    refine ⟨some path, p', always_eq_ok.mpr ?_, hp', congrArg some hpath⟩
    rw [package?, hp.cursor.isAt_of_eq (k := .package) rfl, if_pos rfl, hok]

/-- The imports that were written, by induction on them. -/
theorem reads_imports (is : List ImportForm) {zs : List Spelling} (hzs : EndsHeader zs)
    (himport : headKind zs ≠ .import) :
    ReadsFrom At (always (headers (·.isAt .import) importHeader)) (is.flatMap ImportForm.spell ++ zs) zs
      (List.Forall₂ ImportForm.Matches is) := by
  induction is with
  | nil =>
    intro p hp
    refine ⟨[], p, always_eq_ok.mpr ?_, hp, .nil⟩
    rw [headers, hp.cursor.isAt_of_ne himport, if_neg Bool.false_ne_true]
  | cons i is ih =>
    intro p hp
    rw [List.flatMap_cons, List.append_assoc] at hp
    have hends : EndsHeader (is.flatMap ImportForm.spell ++ zs) := by
      cases is with
      | nil => exact hzs
      | cons j js => exact .head _
    obtain ⟨found, p', hok, hp', hfound⟩ := reads_reading (reads_importHeader i hends) p hp
    obtain ⟨others, p'', hok', hp'', hothers⟩ := ih p' hp'
    have hless : p'.cursor.size < p.cursor.size := by
      rw [hp.cursor.size, hp'.cursor.size, ImportForm.spell]
      simp only [List.length_append, List.length_cons]
      omega
    refine ⟨found :: others, p'', always_eq_ok.mpr ?_, hp'', .cons hfound hothers⟩
    rw [headers, hp.cursor.isAt_of_eq (k := .import) rfl, if_pos rfl, hok]
    simp only [if_pos hless, always_eq_ok.mp hok']
    rfl

end Parser

open TokenParser

/-- The tokens of a file. -/
theorem FileForm.flatten_lines (ownLines : Bool) (f : FileForm) : (f.lines ownLines).flatten =
    f.package.toList.flatMap (fun d => .word "package" :: d.spell) ++ (f.imports.flatMap ImportForm.spell ++
      (DeclForm.spellAll ownLines f.declarations ++ [])) := by
  simp [lines, DeclForm.spellAll, List.flatMap_def]

/-- Declarations can stand behind a header. -/
theorem DeclForm.endsHeader_spellAll (ownLines : Bool) (ds : List DeclForm) :
    EndsHeader (spellAll ownLines ds ++ []) ∧ headKind (spellAll ownLines ds ++ []) ≠ .import := by
  cases ds with
  | nil =>
    have heof : TokenKind.eof ∈ [.import, .at, .identifier, .class, .interface, .object, .eof] := by decide
    exact ⟨heof, nofun⟩
  | cons d ds =>
    have hkind := d.headKind_spellAll ownLines ds []
    have hsubset : ∀ k ∈ [TokenKind.at, .identifier, .class, .interface, .object],
        k ∈ [TokenKind.import, .at, .identifier, .class, .interface, .object, .eof] := by decide
    exact ⟨hsubset _ hkind, ne_of_mem_of_not_mem hkind (by decide)⟩

/-- The annotations in front of a declaration are not aimed at the file. -/
theorem DeclForm.thirdKind_ne_colon (ownLines : Bool) (ds : List DeclForm)
    (h : headKind (spellAll ownLines ds ++ []) = .at) : headKind ((spellAll ownLines ds ++ []).drop 2) ≠ .colon := by
  cases ds with
  | nil => contradiction
  | cons d ds =>
    obtain ⟨as, before, behind, heading, ts, inner⟩ := d
    rw [spellAll_cons] at h ⊢
    have hkind := endsModifier_modifiers (allModifiers before behind heading) (heading.kind.beginsClass
      (heading.spellName ++ (TypeForm.spellSupertypes ts ++ Spelling.mark .leftBrace ::
        (spellAll ownLines inner ++ Spelling.mark .rightBrace :: (spellAll ownLines ds ++ [])))))
    cases as with
    | nil => exact absurd h (ne_of_mem_of_not_mem hkind (by decide))
    | cons a as =>
      obtain ⟨name, more, hspell, hmore⟩ := a.spellBody_eq_cons
      rw [List.flatMap_cons, AnnotationForm.spell, hspell, List.append_assoc]
      refine hmore _ ?_
      cases as with
      | nil => exact .tail _ hkind
      | cons a as => exact .head _

namespace Parser

/-- What a file begins with is not aimed at the file. -/
theorem not_aimed_at_file (ownLines : Bool) (f : FileForm) {c : Cursor}
    (hc : c.At (f.lines ownLines).flatten) : isAtFileAnnotation c = false := by
  obtain ⟨package, imports, declarations⟩ := f
  rw [FileForm.flatten_lines] at hc
  cases package with
  | some d =>
    unfold isAtFileAnnotation
    rw [hc.isAt_of_ne (k := .at) nofun]
    rfl
  | none => cases imports with
    | cons i is =>
      unfold isAtFileAnnotation
      rw [hc.isAt_of_ne (k := .at) nofun]
      rfl
    | nil =>
      have hc : c.At (DeclForm.spellAll ownLines declarations ++ []) := hc
      unfold isAtFileAnnotation
      by_cases hat : headKind (DeclForm.spellAll ownLines declarations ++ []) = .at
      · rw [hc.kind_peekNth, beq_eq_false_iff_ne.mpr (DeclForm.thirdKind_ne_colon ownLines _ hat), Bool.and_false]
      · rw [hc.isAt_of_ne (k := .at) hat]
        rfl

/-- A file is read from its tokens. -/
theorem file_matches (ownLines : Bool) (f : FileForm) (name : String) {p : Parser}
    (hp : p.At (f.lines ownLines).flatten) : (p.file name).2.errors = [] ∧ f.Matches (p.file name).1 := by
  have hannotations : headers isAtFileAnnotation TokenParser.annotationUse p = ([], p) := by
    rw [headers, not_aimed_at_file ownLines f hp.cursor, if_neg Bool.false_ne_true]
  have hdeclarations := DeclForm.endsHeader_spellAll ownLines f.declarations
  have hheader : EndsHeader
      (f.imports.flatMap ImportForm.spell ++ (DeclForm.spellAll ownLines f.declarations ++ [])) := by
    cases f.imports with
    | nil => exact hdeclarations.1
    | cons i is => exact .head _
  rw [FileForm.flatten_lines] at hp
  obtain ⟨package, p₁, hok₁, hp₁, hpackage⟩ := reads_package f.package hheader p hp
  obtain ⟨imports, p₂, hok₂, hp₂, himports⟩ := reads_imports f.imports hdeclarations.1 hdeclarations.2 p₁ hp₁
  obtain ⟨_, p₃, hok₃, hp₃, classes, rfl, hclasses⟩ :=
    reads_members ownLines false f.declarations (.inl rfl) p₂ hp₂
  have hfile : p.file name =
      (⟨name, [], package, imports, classes, [], p₃.cursor.spanFrom p.cursor.peek.span⟩, p₃) := by
    simp only [file, hannotations, always_eq_ok.mp hok₁, always_eq_ok.mp hok₂, always_eq_ok.mp hok₃, filterMap_class?,
      filterMap_typeAlias?]
  rw [hfile]
  exact ⟨hp₃.errors, hpackage, himports, hclasses, rfl, rfl⟩

end Parser

/-! ## Texts -/

/-- No line of a declaration begins with a parenthesis. -/
theorem DeclForm.lines_ne_leftParen (ownLines : Bool) :
    ∀ d : DeclForm, ∀ line ∈ d.lines ownLines, headKind line ≠ .leftParen
  | ⟨as, before, behind, heading, ts, inner⟩ => by
    intro line hline
    have hhead : headKind (spellHead (allModifiers before behind heading) heading ts) ≠ .leftParen :=
      ne_of_mem_of_not_mem (endsModifier_modifiers _ (heading.kind.beginsClass _)) (by decide)
    rw [lines, List.mem_append, List.mem_append] at hline
    rcases hline with (hline | hline) | hline
    · cases ownLines with
      | true =>
        rcases List.mem_append.mp hline with hline | hline
        · obtain ⟨a, -, rfl⟩ := List.mem_map.mp hline
          simp [AnnotationForm.spell]
        · rw [List.mem_singleton.mp hline]
          exact hhead
      | false =>
        rw [List.mem_singleton.mp hline]
        cases as with
        | nil => exact hhead
        | cons a as => simp [AnnotationForm.spell]
    · obtain ⟨d, hd, hline⟩ := List.mem_flatMap.mp hline
      exact lines_ne_leftParen ownLines d line hline
    · rw [List.mem_singleton.mp hline]
      simp

/-- No line of a file begins with a parenthesis. -/
theorem FileForm.lines_ne_leftParen (ownLines : Bool) (f : FileForm) :
    ∀ line ∈ f.lines ownLines, headKind line ≠ .leftParen := by
  intro line hline
  simp only [lines, List.mem_append, List.mem_map, List.mem_flatMap] at hline
  rcases hline with (⟨d, -, rfl⟩ | ⟨i, -, rfl⟩) | ⟨d, -, hd⟩
  · exact (by decide : TokenKind.ofWord "package" ≠ .leftParen)
  · exact (by decide : TokenKind.ofWord "import" ≠ .leftParen)
  · exact d.lines_ne_leftParen ownLines line hd

/-- What is written on lines is read as the same tokens, none of them a parenthesis on a new line. -/
theorem stands_of_isReadAs {lines : List (List Spelling)} {ts : List Token}
    (hread : List.Forall₂ Spelling.IsReadAs (lines.flatMap onLine) ts)
    (hlines : ∀ line ∈ lines, headKind line ≠ .leftParen) : List.Forall₂ Spelling.Stands lines.flatten ts := by
  have hflatten : lines.flatten = (lines.flatMap onLine).map Prod.snd := by
    rw [List.map_flatMap, List.flatten_eq_flatMap]
    refine congrArg (lines.flatMap ·) (funext fun line => ?_)
    cases line <;> simp [onLine, Function.comp_def]
  have hfirst : ∀ s ∈ lines.flatMap onLine, s.1 = true → s.2.kind ≠ .leftParen := by
    intro s hs
    obtain ⟨line, hline, hs⟩ := List.mem_flatMap.mp hs
    cases line with
    | nil => contradiction
    | cons first others =>
      rcases List.mem_cons.mp hs with rfl | hs
      · exact fun _ => hlines _ hline
      · obtain ⟨_, -, rfl⟩ := List.mem_map.mp hs
        nofun
  rw [hflatten, List.forall₂_map_left_iff]
  refine ((List.forall₂_and_left _ _).mpr ⟨hfirst, hread⟩).imp fun s t ⟨hs, hkind, hlexeme, hline⟩ =>
    ⟨hkind, hlexeme, fun hparen => ?_⟩
  rw [← Bool.not_eq_true]
  exact fun hnewline => hs (hline hnewline) (hkind.symm.trans hparen)

/-- **Round trip.**  Whatever forest of declarations is written, with a package and imports or without, its text is
read without an error, and what is read is the package, the imports and the forest that were written. -/
theorem parse_text (ownLines : Bool) (f : FileForm) (name : String) :
    ∃ file, SourceFile.parse name (f.text ownLines) = .ok file ∧ f.Matches file := by
  obtain ⟨ts, e, hlexemes, hread, heof⟩ := lexemes_written ((f.lines ownLines).flatMap onLine)
  have hsource : Parser.ofSource (f.text ownLines) = ⟨⟨none, ts, e⟩, []⟩ := by
    rw [Parser.ofSource, FileForm.text, hlexemes]
    simp [Cursor.ofLexemes, List.filterMap_append, List.filterMap_map, Function.comp_def, Lexeme.token?, Lexeme.error?]
  have hat : (Parser.ofSource (f.text ownLines)).At (f.lines ownLines).flatten := by
    rw [hsource]
    exact ⟨⟨stands_of_isReadAs hread (f.lines_ne_leftParen ownLines), heof⟩, rfl⟩
  obtain ⟨herrors, hmatches⟩ := Parser.file_matches ownLines f name hat
  refine ⟨_, ?_, hmatches⟩
  rw [SourceFile.parse]
  simp only [herrors, List.isEmpty_nil, if_true]

end ServiceCatalog
