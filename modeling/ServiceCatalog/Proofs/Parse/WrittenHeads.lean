import ServiceCatalog.Parse.Declaration
import ServiceCatalog.Proofs.Parse.WrittenTypes

/-!
# Written headers and heads are read back

The package and the imports of a file, and of a declaration what stands before the brace of its body.  Here the
words that are keywords in some places only are told apart: a modifier is one because neither a type nor a value
follows it, and a companion object has no name where none follows its keyword.

* `reads_packageHeader`, `reads_importHeader`.
* `reads_preamble`, `classKind?_eq_some`, `reads_classHead`.
-/

namespace ServiceCatalog

namespace TokenParser

open Cursor

/-! ## Headers -/

/-- Whether a header can end before the tokens to come: another one, a declaration or the end of the file. -/
def EndsHeader (xs : List Spelling) : Prop :=
  headKind xs ∈ [.import, .at, .identifier, .class, .interface, .object, .eof]

theorem reads_path (d : DottedForm) {xs : List Spelling} (hxs : headKind xs ≠ .dot) :
    Reads path (d.spell ++ xs) xs (·.names = d.names) := by
  refine .bind .nextSpan fun start _ => .bind (.identifier rfl) fun i hi => .bind (reads_dotIdentifiers
    (fun c => isAtDotIdentifier_of) (fun c hc => ?_) d.others) fun is his => .bind (.spanFrom _) fun _ _ =>
    .pure (names_eq hi his)
  rw [isAtDotIdentifier, hc.isAt_of_ne hxs, Bool.false_and]

theorem reads_packageHeader (d : DottedForm) {xs : List Spelling} (hxs : EndsHeader xs) :
    Reads packageHeader (.word "package" :: d.spell ++ xs) xs (·.names = d.names) :=
  .bind (.expect rfl) fun _ _ => .bind (reads_path d (ne_of_mem_of_not_mem hxs (by decide))) fun _ h =>
    .bind (.eat_of_ne (ne_of_mem_of_not_mem hxs (by decide))) fun _ _ => .pure h

theorem reads_importAlias (n : PlainName) {xs : List Spelling} :
    Reads importAlias (.word "as" :: n.spelling :: xs) xs fun found => ∃ i, found = some i ∧ i.name = n.text := by
  refine .bind (.eat rfl) fun _ h => ?_
  subst h
  rw [if_pos rfl, map_eq_pure_bind]
  exact .bind (.identifier rfl) fun i hi => .pure ⟨i, rfl, hi.trans n.text_spelling⟩

theorem reads_importAlias_none {xs : List Spelling} (hxs : headKind xs ≠ .as) :
    Reads importAlias xs xs (· = none) :=
  .bind (.eat_of_ne hxs) fun _ h => by subst h; exact .pure rfl

/-- The names of an import end where no dot follows, or a dot with a star behind it. -/
theorem ends_importPath (i : ImportForm) {xs : List Spelling} (hxs : headKind xs ≠ .dot) {c : Cursor}
    (hc : c.At (i.spellEnd ++ xs)) : (c.isAt .dot && c.secondKind != .star) = false := by
  cases i with
  | name d => rw [hc.isAt_of_ne hxs, Bool.false_and]
  | renamed d newName =>
    have has : headKind (ImportForm.spellEnd (.renamed d newName) ++ xs) ≠ .dot := nofun
    rw [hc.isAt_of_ne has, Bool.false_and]
  | all d => rw [hc.secondKind, show headKind _ = .star from rfl, bne_self_eq_false, Bool.and_false]

theorem reads_importHeader (i : ImportForm) {xs : List Spelling} (hxs : EndsHeader xs) :
    Reads importHeader (i.spell ++ xs) xs i.Matches := by
  have hdot : headKind xs ≠ .dot := ne_of_mem_of_not_mem hxs (by decide)
  have hsemicolon : headKind xs ≠ .semicolon := ne_of_mem_of_not_mem hxs (by decide)
  have hspell : i.spell ++ xs = .word "import" :: (i.path.spell ++ (i.spellEnd ++ xs)) := by
    simp [ImportForm.spell]
  rw [hspell]
  refine .bind (.expect rfl) fun mark _ => .bind .nextSpan fun start _ => .bind (.identifier rfl) fun first hfirst =>
    .bind (reads_dotIdentifiers (fun c hkind hsecond => ?_) (fun _ => ends_importPath i hdot) i.path.others)
      fun others hothers => ?_
  · rw [isAt_iff.mpr hkind, hsecond]
    rfl
  have hnames := names_eq hfirst hothers
  cases i with
  | name d =>
    have has : headKind xs ≠ .as := ne_of_mem_of_not_mem hxs (by decide)
    refine .bind (.eat_of_ne hdot) fun _ h => ?_
    subst h
    refine .bind (.spanFrom _) fun _ _ => .bind (reads_importAlias_none has) fun _ h => ?_
    subst h
    exact .bind (.eat_of_ne hsemicolon) fun _ _ => .bind (.spanFrom _) fun _ _ => .pure (.name hnames)
  | renamed d newName =>
    have hend : headKind (ImportForm.spellEnd (.renamed d newName) ++ xs) ≠ .dot := nofun
    refine .bind (.eat_of_ne hend) fun _ h => ?_
    subst h
    refine .bind (.spanFrom _) fun _ _ => .bind (reads_importAlias newName) fun _ h => ?_
    obtain ⟨newIdent, rfl, hnew⟩ := h
    exact .bind (.eat_of_ne hsemicolon) fun _ _ => .bind (.spanFrom _) fun _ _ => .pure (.renamed hnames hnew)
  | all d =>
    refine .bind (.eat rfl) fun _ h => ?_
    subst h
    refine .bind .next fun _ _ => .bind (.spanFrom _) fun _ _ => .bind (.pure (P := (· = none)) rfl) fun _ h => ?_
    subst h
    exact .bind (.eat_of_ne hsemicolon) fun _ _ => .bind (.spanFrom _) fun _ _ => .pure (.all hnames)

/-! ## Annotations and modifiers -/

/-- Whether the keyword of a declaration is the first of the tokens to come. -/
def BeginsClass (xs : List Spelling) : Prop := headKind xs ∈ [.class, .interface, .object]

/-- Whether a modifier can end before the tokens to come: another one or the keyword. -/
def EndsModifier (xs : List Spelling) : Prop := headKind xs ∈ [.identifier, .class, .interface, .object]

/-- In front of the keyword stand modifiers, if anything does. -/
theorem endsModifier_modifiers (ms : List ModifierForm) {xs : List Spelling} (hxs : BeginsClass xs) :
    EndsModifier (ms.map ModifierForm.spelling ++ xs) := by
  cases ms with
  | nil => exact .tail _ hxs
  | cons m ms =>
    rw [EndsModifier, List.map_cons, List.cons_append, headKind_cons, m.kind_spelling]
    exact .head _

/-- A modifier is one also where its word could be a name, since it is neither assigned to nor given a type. -/
theorem isAtModifier_of (m : ModifierForm) {xs : List Spelling} (hxs : EndsModifier xs) {c : Cursor}
    (hc : c.At (m.spelling :: xs)) : isAtModifier c = true := by
  have hidentifier : c.isAt .identifier = true := hc.isAt_of_eq m.kind_spelling
  have hlexeme : c.peek.lexeme = m.text := hc.lexeme.trans m.text_spelling
  have hsecond : c.secondKind = headKind xs := hc.secondKind
  have hequal : headKind xs ≠ .equal := ne_of_mem_of_not_mem hxs (by decide)
  have hcolon : headKind xs ≠ .colon := ne_of_mem_of_not_mem hxs (by decide)
  simp [isAtModifier, hidentifier, hlexeme, hsecond, hequal, hcolon, isModifier, m.mem]

theorem reads_modifier (m : ModifierForm) (xs : List Spelling) :
    Reads preambleItem (m.spelling :: xs) xs fun item => item.annotations = [] ∧ item.modifiers = [m.text] := by
  have hat : headKind (m.spelling :: xs) ≠ .at := by
    rw [headKind_cons, m.kind_spelling]
    nofun
  exact .test_false (fun c hc => hc.isAt_of_ne hat) <| .bind .next fun t ht =>
    .pure ⟨rfl, by rw [ht.2, m.text_spelling]⟩

theorem reads_modifiers (ms : List ModifierForm) {xs : List Spelling} (hxs : BeginsClass xs) :
    Reads (manyWhile (fun c => c.isAt .at || isAtModifier c) preambleItem) (ms.map ModifierForm.spelling ++ xs) xs
      fun items => items.flatMap Preamble.annotations = [] ∧
        items.flatMap Preamble.modifiers = ms.map ModifierForm.text := by
  have hat : headKind xs ≠ .at := ne_of_mem_of_not_mem hxs (by decide)
  have hidentifier : headKind xs ≠ .identifier := ne_of_mem_of_not_mem hxs (by decide)
  have hstop : ∀ c : Cursor, c.At xs → (c.isAt .at || isAtModifier c) = false := by
    intro c hc
    rw [isAtModifier, hc.isAt_of_ne hat, hc.isAt_of_ne hidentifier]
    rfl
  have hnext : ∀ (m : ModifierForm) ys, EndsModifier ([m.spelling] ++ ys) := by
    intro m ys
    rw [EndsModifier, List.cons_append, headKind_cons, m.kind_spelling]
    exact .head _
  rw [List.map_eq_flatMap]
  refine (ReadsFrom.manyWhile (fun m : ModifierForm => [m.spelling]) EndsModifier
    (fun m ys c hys hc => by rw [isAtModifier_of m hys hc, Bool.or_true]) hstop (fun m => List.cons_ne_nil _ _)
    hnext (.tail _ hxs) (fun m ys _ _ => reads_modifier m ys) ms
    (Nat.le_refl _)).mono fun items hitems => ?_
  induction hitems with
  | nil => exact ⟨rfl, rfl⟩
  | cons h _ ih =>
    rw [List.flatMap_cons, List.flatMap_cons, List.map_cons, h.1, h.2, ih.1, ih.2]
    exact ⟨rfl, rfl⟩

/-- Annotations are read together, and each modifier by itself. -/
theorem reads_preamble (as : List AnnotationForm) (ms : List ModifierForm) {xs : List Spelling} (hxs : BeginsClass xs) :
    Reads preamble (as.flatMap AnnotationForm.spell ++ (ms.map ModifierForm.spelling ++ xs)) xs fun p =>
      List.Forall₂ AnnotationForm.Matches as p.annotations ∧ p.modifiers = ms.map ModifierForm.text := by
  have hmodifiers := reads_modifiers ms hxs
  cases as with
  | nil =>
    refine .bind hmodifiers fun items ⟨hannotations, hwords⟩ => .pure ⟨?_, hwords⟩
    rw [hannotations]
    exact .nil
  | cons a as =>
    have hkind := endsModifier_modifiers ms hxs
    have hends : EndsAnnotation (ms.map ModifierForm.spelling ++ xs) := .tail _ hkind
    have hitem : Reads preambleItem ((a :: as).flatMap AnnotationForm.spell ++ (ms.map ModifierForm.spelling ++ xs))
        (ms.map ModifierForm.spelling ++ xs) fun p =>
          List.Forall₂ AnnotationForm.Matches (a :: as) p.annotations ∧ p.modifiers = [] :=
      .test_true (fun c hc => hc.isAt_of_eq rfl) <| .bind (reads_annotations (a :: as) hends
        (ne_of_mem_of_not_mem hkind (by decide))) fun uses huses => .pure ⟨huses, rfl⟩
    refine .bind (.manyWhile_cons (fun c hc => ?_) hitem ?_ hmodifiers) fun items hitems => ?_
    · rw [hc.isAt_of_eq (k := .at) rfl, Bool.true_or]
    · rw [List.length_append, List.flatMap_cons, AnnotationForm.spell]
      simp only [List.length_append, List.length_cons]
      omega
    · obtain ⟨item, items', rfl, ⟨huses, hnone⟩, hannotations, hwords⟩ := hitems
      refine .pure ⟨?_, ?_⟩
      · rw [List.flatMap_cons, hannotations, List.append_nil]
        exact huses
      · show (item :: items').flatMap Preamble.modifiers = _
        rw [List.flatMap_cons, hnone, hwords, List.nil_append]

/-! ## Keywords and names -/

/-- The kind of a class is told by its keyword and the modifiers that go with it; no other modifier changes it. -/
theorem classKind?_eq_some (before behind : List PlainModifier) (heading : HeadingForm) {xs : List Spelling}
    {c : Cursor} (hc : c.At (heading.kind.spellKeyword :: (heading.spellName ++ xs))) :
    classKind? ((DeclForm.allModifiers before behind heading).map ModifierForm.text) c = some heading.kind := by
  have hplain : ∀ w ∈ kindModifiers, ∀ ms : List PlainModifier,
      w ∉ (ms.map PlainModifier.toModifierForm).map ModifierForm.text := by
    intro w hw ms hmem
    simp only [List.map_map, List.mem_map] at hmem
    obtain ⟨m, -, rfl⟩ := hmem
    exact m.not_mem hw
  have hcontains : ∀ w ∈ kindModifiers,
      ((DeclForm.allModifiers before behind heading).map ModifierForm.text).contains w =
        (heading.kind.ownModifiers.map ModifierForm.text).contains w := by
    intro w hw
    simp only [DeclForm.allModifiers, List.map_append, List.contains_eq_mem, List.mem_append, hplain w hw, false_or,
      or_false]
  have henum := hcontains "enum" (by decide)
  have hannotation := hcontains "annotation" (by decide)
  have hcompanion := hcontains "companion" (by decide)
  have hkind : c.kind = heading.kind.spellKeyword.kind := hc.kind
  have hsecond : c.secondKind = headKind (heading.spellName ++ xs) := hc.secondKind
  unfold classKind?
  rw [hkind, henum, hannotation, hcompanion, hsecond]
  cases heading with
  | companion => rfl
  | named kind name => cases kind <;> rfl

/-- Whether the name of a class can end before the tokens to come. -/
def EndsName (xs : List Spelling) : Prop := headKind xs ∈ [.colon, .leftBrace]

theorem reads_classNaming (heading : HeadingForm) {xs : List Spelling} (hxs : EndsName xs) :
    Reads (classNaming heading.kind) (heading.kind.spellKeyword :: (heading.spellName ++ xs)) xs
      (·.name = heading.knownAs) := by
  have hfun : headKind (heading.kind.spellKeyword :: (heading.spellName ++ xs)) ≠ .fun := by
    cases heading.kind <;> nofun
  refine .bind (.eat_of_ne hfun) fun _ _ => .bind .next fun keyword _ => ?_
  cases heading with
  | named kind name =>
    refine .bind (P := (· = true)) (fun c hc => ⟨_, c, rfl, hc, hc.isAt_of_eq rfl⟩) fun _ h => ?_
    subst h
    rw [Bool.not_true, Bool.and_false, if_neg Bool.false_ne_true]
    exact (ReadsFrom.identifier rfl).mono fun i hi => hi.trans name.text_spelling
  | companion =>
    have hname : headKind xs ≠ .identifier := ne_of_mem_of_not_mem hxs (by decide)
    refine .bind (P := (· = false)) (fun c hc => ⟨_, c, rfl, hc, hc.isAt_of_ne hname⟩) fun _ h => ?_
    subst h
    exact .pure rfl

/-- No constructor is passed where none stands. -/
theorem reads_skipConstructor {xs : List Spelling} (hxs : EndsName xs) :
    Reads skipConstructor xs xs fun _ => True := by
  have hat : headKind xs ≠ .at := ne_of_mem_of_not_mem hxs (by decide)
  have hidentifier : headKind xs ≠ .identifier := ne_of_mem_of_not_mem hxs (by decide)
  have hparen : headKind xs ≠ .leftParen := ne_of_mem_of_not_mem hxs (by decide)
  refine .bind .here fun start hstart => .bind (.manyWhile_nil fun c hc => ?_) fun _ _ =>
    .bind (.eatWord_of_ne hidentifier) fun _ h => .test_false (fun c hc => ?_) ?_
  · rw [isAtConstructorModifier, hc.isAt_of_ne hat, hc.isAt_of_ne hidentifier]
    rfl
  · rw [hc.isAt_of_ne hparen, Bool.false_and]
  · subst h
    exact fun c _ => ⟨(), start, rfl, hstart, trivial⟩

/-! ## Supertypes -/

/-- Whether a supertype can end before the tokens to come. -/
def EndsSupertype (xs : List Spelling) : Prop := headKind xs ∈ [.comma, .leftBrace]

theorem reads_supertype (t : TypeForm) {xs : List Spelling} (hxs : EndsSupertype xs) :
    Reads supertype (t.spell ++ xs) xs t.Matches := by
  have hends : EndsType xs := by
    have hsubset : ∀ k ∈ [TokenKind.comma, .leftBrace], k ∈ [TokenKind.comma, .greater, .leftBrace, .eof] := by decide
    exact hsubset _ hxs
  have hparen : headKind xs ≠ .leftParen := ne_of_mem_of_not_mem hxs (by decide)
  refine .bind (reads_type t hends) fun t' ht => .test_false (fun c hc => ?_) (.bind (.eatWord_of_ne
    (ne_of_mem_of_not_mem hxs (by decide))) fun _ h => ?_)
  · rw [isAtArguments, hc.isAt_of_ne hparen, Bool.false_and]
  · subst h
    exact .pure ht.isMatch

theorem reads_supertypes (t : TypeForm) (ts : List TypeForm) {xs : List Spelling} (hxs : headKind xs = .leftBrace) :
    Reads supertypes (t.spell ++ (ts.flatMap (fun t => .mark .comma :: t.spell) ++ xs)) xs
      (List.Forall₂ TypeForm.Matches (t :: ts)) := by
  have hends : EndsSupertype xs := by
    rw [EndsSupertype, hxs]
    decide
  have hfirst : EndsSupertype (ts.flatMap (fun t => .mark .comma :: t.spell) ++ xs) := by
    cases ts with
    | nil => exact hends
    | cons t ts => exact .head _
  have hstop : headKind xs ≠ .comma := by rw [hxs]; nofun
  have hothers : Reads (manyWhile (·.isAt .comma) (do let _ ← next; supertype))
      (ts.flatMap (fun t => .mark .comma :: t.spell) ++ xs) xs (List.Forall₂ TypeForm.Matches ts) :=
    reads_commaItems TypeForm.spell EndsSupertype (fun t xs c hc => hc.isAt_of_eq rfl) (fun c hc => hc.isAt_of_ne hstop)
      (fun xs => .head _) hends (fun t xs hxs _ => reads_supertype t hxs) ts (Nat.le_refl _)
  exact .bind (reads_supertype t hfirst) fun _ ht => .bind hothers fun _ hts => .pure (.cons ht hts)

theorem reads_classHead (heading : HeadingForm) (ts : List TypeForm) {xs : List Spelling}
    (hxs : headKind xs = .leftBrace) :
    Reads (classHead heading.kind)
      (heading.kind.spellKeyword :: (heading.spellName ++ (TypeForm.spellSupertypes ts ++ xs))) xs
      fun head => head.1.name = heading.knownAs ∧ List.Forall₂ TypeForm.Matches ts head.2 := by
  have hends : EndsName (TypeForm.spellSupertypes ts ++ xs) := by
    cases ts with
    | nil => exact .tail _ (hxs ▸ .head _)
    | cons t ts => exact .head _
  have hless : headKind (TypeForm.spellSupertypes ts ++ xs) ≠ .less := ne_of_mem_of_not_mem hends (by decide)
  have hidentifier : headKind xs ≠ .identifier := by rw [hxs]; nofun
  refine .bind (reads_classNaming heading hends) fun name hname => .test_false (fun c hc => hc.isAt_of_ne hless)
    (.bind (reads_skipConstructor hends) fun _ _ => ?_)
  have hwhere : ∀ types, List.Forall₂ TypeForm.Matches ts types → Reads (do
      if ← test (·.isAtWord "where") then skipUntil endsClause
      return (name, types)) xs xs fun head => head.1.name = heading.knownAs ∧
        List.Forall₂ TypeForm.Matches ts head.2 := fun types htypes =>
    .test_false (fun c hc => hc.isAtWord_of_ne hidentifier _) (.pure ⟨hname, htypes⟩)
  cases ts with
  | nil =>
    have hcolon : headKind xs ≠ .colon := by rw [hxs]; nofun
    refine .bind (.eat_of_ne hcolon) fun _ h => ?_
    subst h
    exact .bind (.pure (P := (· = [])) rfl) fun _ h => h ▸ hwhere [] .nil
  | cons t ts =>
    rw [TypeForm.spellSupertypes, List.cons_append, List.append_assoc]
    refine .bind (.eat rfl) fun _ h => ?_
    subst h
    exact .bind (reads_supertypes t ts hxs) fun types htypes => hwhere types htypes

end TokenParser

end ServiceCatalog
