import ServiceCatalog.Proofs.Parse.PrintedForm
import ServiceCatalog.Proofs.Parse.Reading

/-!
# Written types and annotations are read back

What a form is written as is read by the parser of its construct up to the end of it, where what follows is a
token that can follow: a comma, a closing mark or the brace of a body behind a type, or the end of the text.

* `reads_type`, `reads_value`: types, and class literals and collections as values, whatever is nested in them.
* `reads_valueArguments`: the arguments of an annotation.
* `reads_annotations`: the annotations in front of a declaration.
-/

namespace ServiceCatalog

/-! ## What stands where -/

/-- Whether a type can end before the tokens to come. -/
def EndsType (xs : List Spelling) : Prop := headKind xs ∈ [.comma, .greater, .leftBrace, .eof]

/-- A row of items in brackets, taken apart. -/
theorem bracketed_cons_append {ι : Type} (opening closing : Spelling) (spell : ι → List Spelling) (i : ι) (is : List ι)
    (zs : List Spelling) : bracketed opening closing ((i :: is).map spell) ++ zs =
      opening :: (spell i ++ (is.flatMap (fun j => .mark .comma :: spell j) ++ closing :: zs)) := by
  simp [bracketed, List.flatMap_map]

theorem SegmentForm.spell_mk (name : PlainName) (arguments : List TypeArgumentForm) :
    SegmentForm.spell ⟨name, arguments⟩ = name.spelling :: TypeArgumentForm.spellAll arguments := by
  rw [SegmentForm.spell, TypeArgumentForm.spellAll]

/-- A named type begins with a name, behind which come type arguments, a dot or what follows the type. -/
theorem NamedForm.spell_eq_cons (u : NamedForm) : ∃ name : PlainName, ∃ more, u.spell = name.spelling :: more ∧
    ∀ xs, headKind (more ++ xs) = .less ∨ headKind (more ++ xs) = .dot ∨ headKind (more ++ xs) = headKind xs := by
  obtain ⟨⟨name, arguments⟩, others⟩ := u
  refine ⟨name, TypeArgumentForm.spellAll arguments ++ others.flatMap fun s => .mark .dot :: s.spell, ?_,
    fun xs => ?_⟩
  · rw [NamedForm.spell, SegmentForm.spell_mk, List.cons_append]
  · cases arguments with
    | cons a as =>
      rw [TypeArgumentForm.spellAll, List.append_assoc, bracketed_cons_append]
      exact .inl rfl
    | nil => cases others with
      | cons s ss => exact .inr (.inl rfl)
      | nil => exact .inr (.inr rfl)

/-- A type begins with a name, and behind the name comes neither another one nor what a function type begins
with. -/
theorem TypeForm.spell_eq_cons (t : TypeForm) : ∃ name : PlainName, ∃ more, t.spell = name.spelling :: more ∧
    ∀ xs, EndsType xs → headKind (more ++ xs) ∉ [.identifier, .leftParen, .at] := by
  obtain ⟨u, marks⟩ := t
  obtain ⟨name, more, hspell, hmore⟩ := u.spell_eq_cons
  refine ⟨name, more ++ List.replicate marks (.mark .question), ?_, fun xs hxs => ?_⟩
  · rw [TypeForm.spell, hspell, List.cons_append]
  · have hends : ∀ k ∈ [TokenKind.less, .dot, .question, .comma, .greater, .leftBrace, .eof],
        k ∉ [.identifier, .leftParen, .at] := by decide
    rw [List.append_assoc]
    apply hends
    rcases hmore (List.replicate marks (Spelling.mark .question) ++ xs) with h | h | h <;> rw [h]
    · exact .head _
    · exact .tail _ (.head _)
    · cases marks with
      | zero => exact .tail _ (.tail _ (.tail _ hxs))
      | succ m => exact .tail _ (.tail _ (.head _))

theorem TypeForm.headKind_spell (t : TypeForm) (xs : List Spelling) : headKind (t.spell ++ xs) = .identifier := by
  obtain ⟨name, more, hspell, -⟩ := t.spell_eq_cons
  rw [hspell]
  rfl

/-- Whether an argument can end before the tokens to come. -/
def EndsArgument (xs : List Spelling) : Prop := headKind xs ∈ [.comma, .rightParen, .rightBracket]

/-- Whether an annotation can end before the tokens to come: another one, a modifier or a keyword. -/
def EndsAnnotation (xs : List Spelling) : Prop := headKind xs ∈ [.at, .identifier, .class, .interface, .object]

/-- An annotation begins with a name that is not what it is aimed at. -/
theorem AnnotationForm.spellBody_eq_cons (a : AnnotationForm) : ∃ name : PlainName, ∃ more,
    a.spellBody = name.spelling :: more ∧ ∀ xs, EndsAnnotation xs → headKind (more ++ xs) ≠ .colon := by
  obtain ⟨name, literals⟩ := a
  obtain ⟨first, more, hspell, hmore⟩ := name.spell_eq_cons
  refine ⟨first, more ++ bracketed (.mark .leftParen) (.mark .rightParen) (literals.map ClassLiteralForm.spell), ?_,
    fun xs hxs => ?_⟩
  · rw [spellBody, hspell, List.cons_append]
  · rw [List.append_assoc]
    rcases hmore (bracketed (.mark .leftParen) (.mark .rightParen) (literals.map ClassLiteralForm.spell) ++ xs)
      with h | h | h <;> rw [h]
    · nofun
    · nofun
    · cases literals with
      | nil => exact ne_of_mem_of_not_mem hxs (by decide)
      | cons l ls => nofun

/-- A class literal begins with a name that is not given a value. -/
theorem ClassLiteralForm.spell_eq_cons (l : ClassLiteralForm) : ∃ name : PlainName, ∃ more,
    l.spell = name.spelling :: more ∧ ∀ xs, headKind (more ++ xs) ≠ .equal := by
  obtain ⟨⟨name, others⟩, arguments⟩ := l
  refine ⟨name, _, rfl, fun xs => ?_⟩
  cases others with
  | cons o os => nofun
  | nil => cases arguments <;> nofun

/-- A value begins with a name that is not given a value, or with a bracket. -/
theorem ValueForm.headKind_spell (v : ValueForm) (xs : List Spelling) :
    headKind (v.spell ++ xs) = .identifier ∧ headKind (v.spell ++ xs).tail ≠ .equal ∨
      headKind (v.spell ++ xs) = .leftBracket := by
  cases v with
  | literal l =>
    obtain ⟨name, more, hspell, hmore⟩ := l.spell_eq_cons
    rw [ValueForm.spell, hspell]
    exact .inl ⟨rfl, hmore xs⟩
  | collection vs =>
    rw [ValueForm.spell]
    exact .inr rfl

/-! ## Texts of named types -/

/-- A segment is written with its type arguments behind its name. -/
theorem TypeSegment.render_eq (s : TypeSegment) :
    s.render = s.name.name ++ angled (s.arguments.map TypeArgument.text) := by
  obtain ⟨name, arguments, span⟩ := s
  cases arguments with
  | nil => simp [render, angled]
  | cons a as => simp [render, angled, String.append_assoc]

/-- What stands behind the last of several texts stands behind all of them. -/
theorem intercalate_concat_append (sep front behind : String) (texts : List String) :
    String.intercalate sep (texts ++ [front ++ behind]) = String.intercalate sep (texts ++ [front]) ++ behind := by
  induction texts with
  | nil => simp
  | cons t ts ih =>
    rw [List.cons_append, List.cons_append, String.intercalate_cons_of_ne_nil (by simp),
      String.intercalate_cons_of_ne_nil (by simp), ih]
    simp only [String.append_assoc]

/-- A named type of which only the last segment has type arguments is written as its names with the arguments
behind them. -/
theorem UserType.render_eq {u : UserType} (hqualifier : ∀ s ∈ u.qualifier, s.arguments = []) :
    u.render = String.intercalate "." u.names ++ angled (u.last.arguments.map TypeArgument.text) := by
  have hbare : u.qualifier.map TypeSegment.render = u.qualifier.map fun s => s.name.name :=
    List.map_congr_left fun s hs => by simp [TypeSegment.render, hqualifier s hs]
  rw [UserType.render, UserType.names, UserType.segments, List.map_append, List.map_append, hbare, List.map_singleton,
    List.map_singleton, u.last.render_eq]
  exact intercalate_concat_append "." _ _ _

namespace TokenParser

open Cursor

/-! ## Names -/

theorem isAtDotIdentifier_of {c : Cursor} (hkind : c.kind = .dot) (hsecond : c.secondKind = .identifier) :
    isAtDotIdentifier c = true := by
  rw [isAtDotIdentifier, isAt_iff.mpr hkind, hsecond]
  rfl

/-- Names with a dot before each, by any test that holds at a dot with a name behind it. -/
theorem reads_dotIdentifiers {t : Cursor → Bool} {zs : List Spelling}
    (hstart : ∀ c : Cursor, c.kind = .dot → c.secondKind = .identifier → t c = true)
    (hstop : ∀ c : Cursor, c.At zs → t c = false) (names : List PlainName) :
    Reads (manyWhile t dotIdentifier) (DottedForm.spellOthers names ++ zs) zs
      (List.Forall₂ (fun (n : PlainName) i => i.name = n.text) names) := by
  refine .manyWhile (fun n : PlainName => [.mark .dot, n.spelling]) (fun _ => True)
    (fun n xs c _ hc => hstart c hc.kind hc.secondKind) hstop (fun n => List.cons_ne_nil _ _) (fun _ _ => trivial)
    trivial (fun n xs _ _ => ?_) names (Nat.le_refl _)
  exact .bind .next fun _ _ => (ReadsFrom.identifier rfl).mono fun i hi => hi.trans n.text_spelling

/-- The names of identifiers that were read. -/
theorem names_eq {first : PlainName} {others : List PlainName} {i : Ident} {is : List Ident}
    (hfirst : i.name = first.spelling.text)
    (hothers : List.Forall₂ (fun (n : PlainName) (i : Ident) => i.name = n.text) others is) :
    (i :: is).map Ident.name = DottedForm.names ⟨first, others⟩ := by
  have hnames : is.map Ident.name = others.map PlainName.text := by
    induction hothers with
    | nil => rfl
    | cons h _ ih => rw [List.map_cons, List.map_cons, h, ih]
  rw [List.map_cons, hfirst, hnames, PlainName.text_spelling, DottedForm.names]

/-! ## Lists -/

/-- Items with a comma before each, by any test that holds at a comma with an item behind it. -/
theorem reads_commaItems {α ι : Type} {t : Cursor → Bool} {item : TokenParser α} (spell : ι → List Spelling)
    (Ends : List Spelling → Prop) {S : ι → α → Prop} {n : Nat} {zs : List Spelling}
    (hstart : ∀ i xs (c : Cursor), c.At (.mark .comma :: (spell i ++ xs)) → t c = true)
    (hstop : ∀ c : Cursor, c.At zs → t c = false) (hcomma : ∀ xs, Ends (.mark .comma :: xs)) (hends : Ends zs)
    (hitem : ∀ i xs, Ends xs → (spell i ++ xs).length < n → Reads item (spell i ++ xs) xs (S i)) (is : List ι)
    (hn : (is.flatMap (fun i => .mark .comma :: spell i) ++ zs).length ≤ n) :
    Reads (manyWhile t (do let _ ← next; item)) (is.flatMap (fun i => .mark .comma :: spell i) ++ zs) zs
      (List.Forall₂ S is) := by
  refine .manyWhile (fun i => .mark .comma :: spell i) Ends (fun i xs c _ => hstart i xs c) hstop
    (fun i => List.cons_ne_nil _ _) (fun i xs => hcomma _) hends (fun i xs hxs hn => ?_) is hn
  rw [List.cons_append, List.length_cons] at hn
  exact .bind .next fun _ _ => hitem i xs hxs hn

/-- Items with commas between them, up to the bracket that closes them. -/
theorem reads_commaList {α ι : Type} {item : TokenParser α} (closing : Spelling) (spell : ι → List Spelling)
    (Ends : List Spelling → Prop) {S : ι → α → Prop} {n : Nat} {zs : List Spelling} (hcomma : closing.kind ≠ .comma)
    (hfirst : ∀ i xs, headKind (spell i ++ xs) ≠ closing.kind) (hmore : ∀ xs, Ends (.mark .comma :: xs))
    (hends : Ends (closing :: zs))
    (hitem : ∀ i xs, Ends xs → (spell i ++ xs).length < n → Reads item (spell i ++ xs) xs (S i)) (is : List ι)
    (hn : (commaSeparated (is.map spell) ++ closing :: zs).length < n) :
    Reads (commaList closing.kind item) (commaSeparated (is.map spell) ++ closing :: zs) (closing :: zs)
      (List.Forall₂ S is) := by
  cases is with
  | nil => exact .test_true (fun c hc => hc.isAt_of_eq rfl) (.pure .nil)
  | cons i is =>
    have hspell : commaSeparated ((i :: is).map spell) ++ closing :: zs =
        spell i ++ (is.flatMap (fun j => .mark .comma :: spell j) ++ closing :: zs) := by
      simp [commaSeparated, List.flatMap_map]
    rw [hspell] at hn ⊢
    have hlength : (is.flatMap (fun j => .mark .comma :: spell j) ++ closing :: zs).length ≤ n := by
      rw [List.length_append] at hn
      omega
    have hnext : Ends (is.flatMap (fun j => .mark .comma :: spell j) ++ closing :: zs) := by
      cases is with
      | nil => exact hends
      | cons j js => exact hmore _
    have hothers := reads_commaItems (t := fun c => c.isAt .comma && c.secondKind != closing.kind) spell Ends
      (fun j xs c hc => ?_) (fun c hc => ?_) hmore hends hitem is hlength
    · refine .test_false (fun c hc => hc.isAt_of_ne (hfirst i _)) <| .bind (hitem i _ hnext hn) fun a ha =>
        .bind hothers fun as has => .bind (.eat_of_ne hcomma) fun _ _ => .pure (.cons ha has)
    · rw [hc.isAt_of_eq (k := .comma) rfl, hc.secondKind, Bool.true_and, bne_iff_ne]
      exact hfirst j xs
    · rw [hc.isAt_of_ne (k := .comma) hcomma, Bool.false_and]

section Types

variable {type : TokenParser TypeRef} {value : TokenParser Expr} {n : Nat}
  (htype : ∀ (t : TypeForm) (xs : List Spelling), EndsType xs → (t.spell ++ xs).length < n →
    Reads type (t.spell ++ xs) xs t.IsRead)

include htype

/-! ## Types -/

/-- The type of a type argument. -/
theorem reads_argumentType {P : TypeArgument → Prop} (t : TypeForm) {xs : List Spelling} (hxs : EndsType xs)
    (hn : (t.spell ++ xs).length < n) (hP : ∀ {t'}, t.IsRead t' → P (.type t')) :
    Reads (type >>= fun t => pure (TypeArgument.type t)) (t.spell ++ xs) xs P :=
  .bind (htype t xs hxs hn) fun _ ht => .pure (hP ht)

/-- A type argument with its variance before it. -/
theorem reads_variantType {P : TypeArgument → Prop} {word : String} (hword : isWord word.toList = true)
    (hkind : TokenKind.ofWord word = .identifier) (hvariance : word = "in" ∨ word = "out") (t : TypeForm)
    {xs : List Spelling} (hxs : EndsType xs) (hn : (t.spell ++ xs).length < n)
    (hP : ∀ {t'}, t.IsRead t' → P (.type t')) :
    Reads (typeArgument type) (.word word hword :: (t.spell ++ xs)) xs P := by
  refine .bind (.eat?_of_ne (by simp [hkind])) fun _ h => ?_
  subst h
  refine .test_true (fun c hc => ?_) (.bind .next fun _ _ => reads_argumentType htype t hxs hn hP)
  have hlexeme : c.peek.lexeme = word := hc.lexeme.trans (Spelling.text_word word hword)
  have hsecond : c.secondKind = .identifier := hc.secondKind.trans (t.headKind_spell xs)
  have hidentifier : c.isAt .identifier = true := hc.isAt_of_eq hkind
  simp only [isAtVariance, Cursor.isAtWord, hidentifier, hlexeme, hsecond]
  rcases hvariance with rfl | rfl <;> rfl

theorem reads_typeArgument (a : TypeArgumentForm) {xs : List Spelling} (hxs : EndsType xs)
    (hn : (a.spell ++ xs).length < n) : Reads (typeArgument type) (a.spell ++ xs) xs a.IsRead := by
  cases a with
  | star =>
    rw [TypeArgumentForm.spell]
    refine .bind (.eat? rfl) fun t h => ?_
    obtain ⟨t', rfl⟩ := h
    exact .pure ⟨.star, rfl⟩
  | type t =>
    rw [TypeArgumentForm.spell] at hn ⊢
    obtain ⟨name, more, hspell, hmore⟩ := t.spell_eq_cons
    refine .bind (.eat?_of_ne (by simp [t.headKind_spell])) fun _ h => ?_
    subst h
    refine .test_false (fun c hc => ?_) (reads_argumentType htype t hxs hn fun h => ⟨.type h.isMatch, h.text_eq⟩)
    have hends := hmore xs hxs
    simp only [List.mem_cons, List.not_mem_nil, or_false, not_or] at hends
    simp [isAtVariance, hc.secondKind_append hspell, hends]
  | inType t =>
    rw [TypeArgumentForm.spell, List.cons_append] at hn ⊢
    rw [List.length_cons] at hn
    exact reads_variantType htype _ rfl (.inl rfl) t hxs (by omega) fun h => ⟨.inType h.isMatch, h.text_eq⟩
  | outType t =>
    rw [TypeArgumentForm.spell, List.cons_append] at hn ⊢
    rw [List.length_cons] at hn
    exact reads_variantType htype _ rfl (.inr rfl) t hxs (by omega) fun h => ⟨.outType h.isMatch, h.text_eq⟩

theorem reads_typeArguments (a : TypeArgumentForm) (as : List TypeArgumentForm) {zs : List Spelling}
    (hn : (TypeArgumentForm.spellAll (a :: as) ++ zs).length ≤ n) :
    Reads (typeArguments type) (TypeArgumentForm.spellAll (a :: as) ++ zs) zs
      (List.Forall₂ TypeArgumentForm.IsRead (a :: as)) := by
  rw [TypeArgumentForm.spellAll, bracketed_cons_append] at hn ⊢
  generalize hmore : as.flatMap (fun b => .mark .comma :: b.spell) ++ .mark .greater :: zs = more at hn ⊢
  simp only [List.length_cons, List.length_append] at hn
  have hends : EndsType more := by
    subst hmore
    cases as with
    | nil => exact .tail _ (.head _)
    | cons b bs => exact .head _
  have hstop : headKind (.mark .greater :: zs) ≠ .comma := by simp
  have hothers : Reads (manyWhile (·.isAt .comma) (do let _ ← next; typeArgument type)) more
      (.mark .greater :: zs) (List.Forall₂ TypeArgumentForm.IsRead as) := by
    subst hmore
    exact reads_commaItems TypeArgumentForm.spell EndsType (fun b xs c hc => hc.isAt_of_eq rfl)
      (fun c hc => hc.isAt_of_ne hstop) (fun xs => .head _) (.tail _ (.head _))
      (fun b xs => reads_typeArgument htype b) as (by omega)
  refine .bind (.expect rfl) fun _ _ => .bind (reads_typeArgument htype a hends ?_) fun first hfirst =>
    .bind hothers fun others hothers => .bind (.expect rfl) fun _ _ => .pure (.cons hfirst hothers)
  rw [List.length_append]
  omega

theorem reads_typeSegment (start : Span) (s : SegmentForm) {xs : List Spelling} (hxs : headKind xs ≠ .less)
    (hn : (s.spell ++ xs).length ≤ n) : Reads (typeSegment type start) (s.spell ++ xs) xs s.Matches := by
  obtain ⟨name, arguments⟩ := s
  rw [SegmentForm.spell_mk, List.cons_append] at hn ⊢
  rw [List.length_cons] at hn
  refine .bind (.identifier rfl) fun i hi => ?_
  rw [PlainName.text_spelling] at hi
  cases arguments with
  | nil =>
    exact .test_false (fun c hc => hc.isAt_of_ne hxs) <| .bind (.pure (P := (· = [])) rfl) fun as has =>
      .bind (.spanFrom _) fun _ _ => .pure (.mk hi (by rw [has]; exact .nil))
  | cons a as =>
    refine .test_true (fun c hc => hc.isAt_of_eq ?_) ?_
    · rw [TypeArgumentForm.spellAll, bracketed_cons_append]
      rfl
    · exact .bind (reads_typeArguments htype a as (by omega)) fun _ has => .bind (.spanFrom _) fun _ _ =>
        .pure (.mk hi (has.imp fun _ _ h => h.isMatch))

omit htype in
theorem segments_userTypeOf (first : TypeSegment) (others : List TypeSegment) :
    (userTypeOf first others).segments = first :: others := by
  cases others with
  | nil => rfl
  | cons s ss =>
    rw [userTypeOf, UserType.segments, List.getLastD_eq_getLast?, List.getLast?_eq_some_getLast (List.cons_ne_nil s ss)]
    exact congrArg _ (List.dropLast_append_getLast _)

theorem reads_userTypeWith (u : NamedForm) {xs : List Spelling} (hdot : headKind xs ≠ .dot)
    (hless : headKind xs ≠ .less) (hn : (u.spell ++ xs).length ≤ n) :
    Reads (userTypeWith type) (u.spell ++ xs) xs u.Matches := by
  obtain ⟨first, others⟩ := u
  rw [NamedForm.spell, List.append_assoc] at hn ⊢
  have hlength : (others.flatMap (fun s => .mark .dot :: s.spell) ++ xs).length ≤ n := by
    rw [List.length_append] at hn
    omega
  have hends : headKind (others.flatMap (fun s => .mark .dot :: s.spell) ++ xs) ≠ .less := by
    cases others with
    | nil => exact hless
    | cons s ss => simp
  refine .bind .nextSpan fun start _ => .bind (reads_typeSegment htype start first hends hn) fun s hs => ?_
  have hothers : Reads (manyWhile isAtDotIdentifier (do let _ ← next; typeSegment type start))
      (others.flatMap (fun s => .mark .dot :: s.spell) ++ xs) xs (List.Forall₂ SegmentForm.Matches others) := by
    refine .manyWhile (fun s : SegmentForm => .mark .dot :: s.spell) (fun xs => headKind xs ≠ .less)
      (fun s xs c _ hc => ?_) (fun c hc => ?_) (fun s => List.cons_ne_nil _ _) (fun s xs => by simp) hless
      (fun s xs hxs hn => ?_) others hlength
    · obtain ⟨name, arguments⟩ := s
      rw [SegmentForm.spell_mk] at hc
      exact isAtDotIdentifier_of hc.kind hc.secondKind
    · rw [isAtDotIdentifier, hc.isAt_of_ne hdot, Bool.false_and]
    · rw [List.cons_append, List.length_cons] at hn
      exact .bind .next fun _ _ => reads_typeSegment htype start s hxs (by omega)
  refine .bind hothers fun ss hss => .pure (.mk ?_)
  rw [segments_userTypeOf]
  exact .cons hs hss

theorem reads_typeElement (t : TypeForm) {xs : List Spelling} (hxs : EndsType xs) (hn : (t.spell ++ xs).length ≤ n) :
    Reads (typeElement type) (t.spell ++ xs) xs
      fun e => ∃ u, e = nullable t.marks (.user u) ∧ NamedForm.Matches t.name u := by
  have hkind := t.headKind_spell xs
  obtain ⟨name, marks⟩ := t
  rw [TypeForm.spell, List.append_assoc] at hn hkind ⊢
  have hends : headKind (List.replicate marks (Spelling.mark .question) ++ xs) ≠ .dot ∧
      headKind (List.replicate marks (Spelling.mark .question) ++ xs) ≠ .less := by
    cases marks with
    | zero => exact ⟨ne_of_mem_of_not_mem hxs (by decide), ne_of_mem_of_not_mem hxs (by decide)⟩
    | succ m => simp [List.replicate_succ]
  have hnamed : Reads (namedOrFunction type) (name.spell ++ (List.replicate marks (Spelling.mark .question) ++ xs))
      (List.replicate marks (Spelling.mark .question) ++ xs) fun e => ∃ u, e = .user u ∧ name.Matches u := by
    refine .bind .nextSpan fun _ _ => .bind (reads_userTypeWith htype name hends.1 hends.2 hn)
      fun u hu => .test_false (fun c hc => ?_) (.pure ⟨u, rfl, hu⟩)
    rw [hc.isAt_of_ne hends.1, Bool.false_and]
  have hmarks : Reads (manyWhile (·.isAt .question) next) (List.replicate marks (Spelling.mark .question) ++ xs) xs
      fun ts => ts.length = marks := by
    have hspell : ∀ s : Spelling, List.replicate marks s = (List.replicate marks ()).flatMap fun _ => [s] :=
      fun s => by rw [← List.map_eq_flatMap, List.map_replicate]
    rw [hspell]
    refine (ReadsFrom.manyWhile (fun _ => [.mark .question]) (fun _ => True) (S := fun _ _ => True)
      (fun _ xs c _ hc => hc.isAt_of_eq rfl) (fun c hc => hc.isAt_of_ne (ne_of_mem_of_not_mem hxs (by decide)))
      (fun _ => List.cons_ne_nil _ _) (fun _ _ => trivial) trivial
      (fun _ _ _ _ => ReadsFrom.next.mono fun _ _ => trivial) _ (Nat.le_refl _)).mono fun ts hts => ?_
    rw [← hts.length_eq, List.length_replicate]
  refine .bind .here fun c hc => ?_
  dsimp only
  rw [hc.kind, hkind]
  refine .bind hnamed fun e he => .bind hmarks fun ts hts => .pure ?_
  obtain ⟨u, rfl, hu⟩ := he
  exact ⟨u, by rw [hts], hu⟩

theorem reads_typeWith (t : TypeForm) {xs : List Spelling} (hxs : EndsType xs) (hn : (t.spell ++ xs).length ≤ n) :
    Reads (typeWith type value) (t.spell ++ xs) xs t.IsRead := by
  have hkind := t.headKind_spell xs
  obtain ⟨last, hprints, -⟩ := t.prints (k := none) rfl
  have hread : ∀ start : Cursor, start.At (t.spell ++ xs) → Reads (do
      let element ← typeElement type
      return (⟨element, [], ← textSince start, ← spanFrom start.peek.span⟩ : TypeRef)) (t.spell ++ xs) xs t.IsRead :=
    fun start hstart => .bind (reads_typeElement htype t hxs hn) fun e he => .bind (.textSince_of hprints hstart)
      fun text htext => .bind (.spanFrom _) fun _ _ => .pure <| by
        obtain ⟨name, marks⟩ := t
        obtain ⟨u, rfl, hu⟩ := he
        exact ⟨.mk hu, htext.trans String.empty_append⟩
  have hannotations : headKind (t.spell ++ xs) ≠ .at := by rw [hkind]; nofun
  refine .bind .here fun start hstart => .bind (.manyWhile_nil fun c hc => hc.isAt_of_ne hannotations) fun as has =>
    .test_false (fun c hc => ?_) ?_
  · obtain ⟨name, more, hspell, hmore⟩ := t.spell_eq_cons
    have hends := hmore xs hxs
    simp only [List.mem_cons, List.not_mem_nil, or_false, not_or] at hends
    simp [isAtSuspend, hc.secondKind_append hspell, hends]
  · subst has
    exact hread start hstart

/-! ## Class literals -/

omit htype in
/-- The named type of a receiver has the names that were read, and only its last segment has type arguments. -/
theorem receiverType_eq (start : Span) (arguments : List TypeArgument) (first : Ident) (others : List Ident) :
    (receiverType start arguments first others).names = (first :: others).map Ident.name ∧
      (∀ s ∈ (receiverType start arguments first others).qualifier, s.arguments = []) ∧
      (receiverType start arguments first others).last.arguments = arguments := by
  refine ⟨?_, fun s hs => ?_, rfl⟩
  · have hlast : others.getLastD first = (first :: others).getLast (List.cons_ne_nil _ _) := by
      rw [List.getLast_eq_getLastD]
    have hall : (first :: others).dropLast ++ [others.getLastD first] = first :: others := by
      rw [hlast, List.dropLast_append_getLast]
    have hnames := congrArg (List.map Ident.name) hall
    simpa [receiverType, UserType.names, UserType.segments, Function.comp_def] using hnames
  · obtain ⟨i, -, rfl⟩ := List.mem_map.mp hs
    rfl

theorem reads_receiver (l : ClassLiteralForm) {zs : List Spelling} (hzs : headKind zs = .colonColon)
    (hn : (l.name.spell ++ (TypeArgumentForm.spellAll l.arguments ++ zs)).length ≤ n) :
    Reads (receiver type) (l.name.spell ++ (TypeArgumentForm.spellAll l.arguments ++ zs)) zs fun e =>
      l.IsReceiver e ∧ e.text ++ "::class" = l.keptText := by
  obtain ⟨⟨first, others⟩, arguments⟩ := l
  have hends : headKind (TypeArgumentForm.spellAll arguments ++ zs) ≠ .dot := by
    cases arguments with
    | nil => show headKind zs ≠ _; rw [hzs]; decide
    | cons a as => rw [TypeArgumentForm.spellAll, bracketed_cons_append]; simp
  refine .bind .nextSpan fun start _ => .bind (.identifier rfl) fun i hi => .bind (reads_dotIdentifiers
    (fun c hkind hsecond => ?_) (fun c hc => ?_) others) fun is his => ?_
  · exact isAtDotIdentifier_of hkind hsecond
  · rw [isAtDotIdentifier, hc.isAt_of_ne hends, Bool.false_and]
  have hnames := names_eq hi his
  cases arguments with
  | cons a as =>
    refine .test_true (fun c hc => hc.isAt_of_eq ?_) (.bind (reads_typeArguments htype a as ?_)
      fun arguments harguments => ?_)
    · rw [TypeArgumentForm.spellAll, bracketed_cons_append]
      rfl
    · exact Nat.le_trans (List.suffix_append _ _).length_le hn
    · obtain ⟨hall, hqualifier, hlast⟩ := receiverType_eq start arguments i is
      have hmatches : List.Forall₂ TypeArgumentForm.Matches (a :: as) arguments :=
        harguments.imp fun _ _ h => h.isMatch
      have htexts : arguments.map TypeArgument.text = (a :: as).map TypeArgumentForm.keptText := by
        rw [← List.forall₂_eq_eq_eq, List.forall₂_map_left_iff, List.forall₂_map_right_iff]
        exact (harguments.imp fun _ _ h => h.text_eq).flip
      refine .bind (.spanFrom _) fun _ _ => .pure ⟨.type (hall.trans hnames) hqualifier (hlast ▸ hmatches), ?_⟩
      rw [Expr.text, UserType.render_eq hqualifier, hall, hlast, hnames, htexts, ClassLiteralForm.keptText]
  | nil =>
    have hless : headKind zs ≠ .less := by rw [hzs]; decide
    refine .test_false (fun c hc => hc.isAt_of_ne hless) ?_
    cases his with
    | nil =>
      refine .pure ⟨.name (hi.trans first.text_spelling), ?_⟩
      rw [Expr.text, hi.trans first.text_spelling, ClassLiteralForm.keptText]
      simp [DottedForm.names, angled]
    | cons h hs =>
      refine .bind (.spanFrom _) fun _ _ => .pure ⟨.path hnames, ?_⟩
      rw [Expr.text, Path.text, Path.names, hnames, ClassLiteralForm.keptText]
      simp [angled, Text.joined]

theorem reads_classLiteral (l : ClassLiteralForm) {xs : List Spelling} (hn : (l.spell ++ xs).length ≤ n) :
    Reads (classLiteral type) (l.spell ++ xs) xs (ValueForm.Matches (.literal l)) := by
  have hspell : l.spell ++ xs = l.name.spell ++ (TypeArgumentForm.spellAll l.arguments ++
      .mark .colonColon :: .word "class" :: xs) := by
    simp [ClassLiteralForm.spell]
  rw [hspell] at hn ⊢
  exact .bind .nextSpan fun _ _ => .bind (reads_receiver htype l rfl hn) fun receiver h =>
    .bind (.expect rfl) fun _ _ => .bind (.expect rfl) fun _ _ => .bind (.spanFrom _) fun span _ =>
    .pure (.literal h.1 h.2)

/-! ## Values -/

variable (hvalue : ∀ (v : ValueForm) (xs : List Spelling), EndsArgument xs → (v.spell ++ xs).length < n →
    Reads value (v.spell ++ xs) xs v.Matches)

omit htype in
include hvalue in
theorem reads_collection (vs : List ValueForm) {xs : List Spelling}
    (hn : ((ValueForm.collection vs).spell ++ xs).length ≤ n) :
    Reads (collection value) ((ValueForm.collection vs).spell ++ xs) xs (ValueForm.Matches (.collection vs)) := by
  have hspell : (ValueForm.collection vs).spell ++ xs = .mark .leftBracket ::
      (commaSeparated (vs.map ValueForm.spell) ++ .mark .rightBracket :: xs) := by
    rw [ValueForm.spell]
    simp
  rw [hspell] at hn ⊢
  rw [List.length_cons] at hn
  have hfirst : ∀ (v : ValueForm) xs, headKind (v.spell ++ xs) ≠ .rightBracket := by
    intro v xs
    rcases v.headKind_spell xs with ⟨h, -⟩ | h <;> rw [h] <;> decide
  have hends : EndsArgument (.mark .rightBracket :: xs) := .tail _ (.tail _ (.head _))
  have helements := reads_commaList (.mark .rightBracket) ValueForm.spell EndsArgument (by decide) hfirst
    (fun _ => .head _) hends hvalue vs (by omega)
  exact .bind (.expect rfl) fun mark _ => .bind helements fun es hes => .bind (.expect rfl) fun _ _ =>
    .bind (.spanFrom _) fun _ _ => .pure (.collection hes)

include hvalue in
theorem reads_valueWith (v : ValueForm) {xs : List Spelling} (hxs : EndsArgument xs)
    (hn : (v.spell ++ xs).length ≤ n) :
    Reads (valueWith type value) (v.spell ++ xs) xs v.Matches := by
  have hstructured : Reads (structuredValue type value) (v.spell ++ xs) xs
      fun found => ∃ e, found = some e ∧ v.Matches e := by
    cases v with
    | literal l =>
      rw [ValueForm.spell] at hn ⊢
      obtain ⟨name, more, hspell, -⟩ := l.spell_eq_cons
      have hbracket : headKind (l.spell ++ xs) ≠ .leftBracket := by simp [hspell]
      exact .test_false (fun c hc => hc.isAt_of_ne hbracket) (.attempt (reads_classLiteral htype l hn))
    | collection vs =>
      refine .test_true (fun c hc => hc.isAt_of_eq ?_)
        (.bind (reads_collection hvalue vs hn) fun e he => .pure ⟨e, rfl, he⟩)
      rw [ValueForm.spell]
      rfl
  refine .bind .here fun start _ => .bind hstructured fun structured hstructured => .bind .here fun c hc => ?_
  obtain ⟨e, rfl, he⟩ := hstructured
  have hends : isAtArgumentEnd c = true := by
    simp only [EndsArgument, List.mem_cons, List.not_mem_nil, or_false] at hxs
    rw [isAtArgumentEnd]
    rcases hxs with h | h | h <;> simp [hc.isAt_of_eq h]
  simp only [hends]
  exact .pure he

end Types

/-! ## The knot -/

/-- Types are read, by induction on the number of tokens to come. -/
theorem reads_type (t : TypeForm) {xs : List Spelling} (hxs : EndsType xs) :
    Reads type (t.spell ++ xs) xs t.IsRead := by
  generalize hn : (t.spell ++ xs).length = n
  induction n using Nat.strongRecOn generalizing t xs with
  | ind n ih =>
    subst hn
    intro c hc
    have hinner : ∀ (t' : TypeForm) (xs' : List Spelling), EndsType xs' → (t'.spell ++ xs').length < c.size →
        Reads (below c fun c' _ => type c') (t'.spell ++ xs') xs' t'.IsRead := by
      intro t' xs' hxs' hless
      exact .below hless (ih _ (by rw [← hc.size]; exact hless) t' hxs' rfl)
    rw [type]
    exact reads_typeWith hinner t hxs (Nat.le_of_eq hc.size.symm) c hc

/-- Values are read, by induction on the number of tokens to come. -/
theorem reads_value (v : ValueForm) {xs : List Spelling} (hxs : EndsArgument xs) :
    Reads value (v.spell ++ xs) xs v.Matches := by
  generalize hn : (v.spell ++ xs).length = n
  induction n using Nat.strongRecOn generalizing v xs with
  | ind n ih =>
    subst hn
    intro c hc
    have hinner : ∀ (v' : ValueForm) (xs' : List Spelling), EndsArgument xs' → (v'.spell ++ xs').length < c.size →
        Reads (below c fun c' _ => value c') (v'.spell ++ xs') xs' v'.Matches := by
      intro v' xs' hxs' hless
      exact .below hless (ih _ (by rw [← hc.size]; exact hless) v' hxs' rfl)
    rw [value]
    exact reads_valueWith (fun t' xs' hxs' hless => .below hless (reads_type t' hxs')) hinner v hxs
      (Nat.le_of_eq hc.size.symm) c hc

/-! ## Arguments and annotations -/

/-- An argument without a name and without a star begins as its value does, and any other with its name or the
star. -/
theorem headKind_argument (a : ValueArgumentForm) (xs : List Spelling) : headKind (a.spell ++ xs) ≠ .rightParen := by
  obtain ⟨name, isSpread, value⟩ := a
  cases name with
  | some n => nofun
  | none =>
    cases isSpread with
    | true => nofun
    | false =>
      show headKind (value.spell ++ xs) ≠ _
      rcases value.headKind_spell xs with ⟨h, -⟩ | h <;> rw [h] <;> nofun

theorem reads_argument (a : ValueArgumentForm) {xs : List Spelling} (hxs : EndsArgument xs) :
    Reads (argument value) (a.spell ++ xs) xs a.Matches := by
  obtain ⟨name, isSpread, v⟩ := a
  have hvalue : ∀ (start : Span) (i : Option Ident), i.map Ident.name = name.map PlainName.text → Reads (do
      let isSpread ← eat .star
      let value ← value
      return (⟨i, isSpread, value, ← spanFrom start⟩ : Argument))
      ((if isSpread then [Spelling.mark .star] else []) ++ (v.spell ++ xs)) xs
      (ValueArgumentForm.Matches ⟨name, isSpread, v⟩) := by
    intro start i hi
    have hrest : Reads (do
        let value ← value
        return (⟨i, isSpread, value, ← spanFrom start⟩ : Argument)) (v.spell ++ xs) xs
          (ValueArgumentForm.Matches ⟨name, isSpread, v⟩) :=
      .bind (reads_value v hxs) fun e he => .bind (.spanFrom _) fun _ _ => .pure ⟨hi, rfl, he⟩
    cases isSpread with
    | true =>
      refine .bind (.eat rfl) fun _ h => ?_
      subst h
      exact hrest
    | false =>
      have hstar : headKind (v.spell ++ xs) ≠ .star := by
        rcases v.headKind_spell xs with ⟨h, -⟩ | h <;> rw [h] <;> decide
      refine .bind (.eat_of_ne hstar) fun _ h => ?_
      subst h
      exact hrest
  have hspell : ValueArgumentForm.spell ⟨name, isSpread, v⟩ ++ xs =
      ValueArgumentForm.spellName name ++ ((if isSpread then [Spelling.mark .star] else []) ++ (v.spell ++ xs)) := by
    simp [ValueArgumentForm.spell]
  rw [hspell]
  refine .bind .nextSpan fun start _ => ?_
  cases name with
  | some n =>
    have hname :
        ValueArgumentForm.spellName (some n) ++ ((if isSpread then [Spelling.mark .star] else []) ++ (v.spell ++ xs)) =
          n.spelling :: .mark .equal :: ((if isSpread then [Spelling.mark .star] else []) ++ (v.spell ++ xs)) := rfl
    rw [hname]
    refine .test_true (fun c hc => ?_) (.bind (.identifier rfl) fun i hi => .bind .next fun _ _ =>
      .bind (.pure (P := (· = some i)) rfl) fun j hj => ?_)
    · rw [hc.isAt_of_eq (k := .identifier) rfl, hc.secondKind]
      rfl
    · rw [hj]
      exact hvalue start (some i) (congrArg some (hi.trans n.text_spelling))
  | none =>
    refine .test_false (fun c hc => ?_) (.bind (.pure (P := (· = none)) rfl) fun j hj => ?_)
    · rw [Bool.and_eq_false_iff]
      cases isSpread with
      | true => exact .inl (hc.isAt_of_ne (by simp [ValueArgumentForm.spellName]))
      | false =>
        rcases v.headKind_spell xs with ⟨-, h⟩ | h
        · exact .inr (beq_eq_false_iff_ne.mpr (hc.secondKind ▸ h))
        · exact .inl (hc.isAt_of_ne (by rw [ValueArgumentForm.spellName]; simp [h]))
    · rw [hj]
      exact hvalue start none rfl

theorem reads_valueArguments (as : List ValueArgumentForm) {zs : List Spelling} :
    Reads (valueArgumentsWith value) (ValueArgumentForm.spellAll as ++ zs) zs
      (List.Forall₂ ValueArgumentForm.Matches as) := by
  have hspell : ValueArgumentForm.spellAll as ++ zs = .mark .leftParen ::
      (commaSeparated (as.map ValueArgumentForm.spell) ++ .mark .rightParen :: zs) := by
    simp [ValueArgumentForm.spellAll]
  have hends : EndsArgument (.mark .rightParen :: zs) := .tail _ (.head _)
  have hlist := reads_commaList (.mark .rightParen) ValueArgumentForm.spell EndsArgument nofun headKind_argument
    (fun _ => .head _) hends (fun a xs hxs _ => reads_argument a hxs) as (Nat.lt_succ_self _)
  rw [hspell]
  exact .bind (.expect rfl) fun _ _ => .bind hlist fun as has => .bind (.expect rfl) fun _ _ => .pure has

/-- A class literal as an argument. -/
def argumentOf (l : ClassLiteralForm) : ValueArgumentForm := ⟨none, false, .literal l⟩

/-- Class literals in parentheses are arguments. -/
theorem spellAll_argumentOf (l : ClassLiteralForm) (ls : List ClassLiteralForm) :
    ValueArgumentForm.spellAll ((l :: ls).map argumentOf) =
      bracketed (.mark .leftParen) (.mark .rightParen) ((l :: ls).map ClassLiteralForm.spell) := by
  have hspell : ∀ l, (argumentOf l).spell = l.spell := fun l => by
    rw [ValueArgumentForm.spell, argumentOf, ValueForm.spell]
    rfl
  rw [ValueArgumentForm.spellAll, List.map_map, show ValueArgumentForm.spell ∘ argumentOf = ClassLiteralForm.spell from
    funext hspell]
  rfl

/-- Class literals that were read as arguments. -/
theorem matches_of_argumentOf {ls : List ClassLiteralForm} {as : List Argument}
    (h : List.Forall₂ ValueArgumentForm.Matches (ls.map argumentOf) as) :
    List.Forall₂ ClassLiteralForm.Matches ls as := by
  rw [List.forall₂_map_left_iff] at h
  refine h.imp fun l a ⟨hname, hspread, hvalue⟩ => ?_
  obtain ⟨name, isSpread, value, span⟩ := a
  cases hvalue with
  | literal hreceiver _ =>
    cases hspread
    obtain rfl : name = none := Option.map_eq_none_iff.mp hname
    exact .mk hreceiver

theorem reads_annotationBody (start : Span) (a : AnnotationForm) {xs : List Spelling} (hxs : EndsAnnotation xs) :
    Reads (annotationBody type value start none) (a.spellBody ++ xs) xs a.Matches := by
  obtain ⟨name, literals⟩ := a
  rw [AnnotationForm.spellBody, List.append_assoc]
  generalize hmore : bracketed (.mark .leftParen) (.mark .rightParen) (literals.map ClassLiteralForm.spell) ++ xs =
    more
  have hends : headKind more ≠ .dot ∧ headKind more ≠ .less := by
    subst hmore
    cases literals with
    | nil => exact ⟨ne_of_mem_of_not_mem hxs (by decide), ne_of_mem_of_not_mem hxs (by decide)⟩
    | cons l ls => exact ⟨nofun, nofun⟩
  refine .bind .here fun c _ => .bind (reads_userTypeWith (fun t xs hxs _ => reads_type t hxs) name hends.1 hends.2
    (Nat.le_refl _)) fun u hu => .bind (.textSince _) fun text _ => .bind (.spanFrom _) fun span _ => ?_
  subst hmore
  cases literals with
  | nil =>
    have hparen : headKind xs ≠ .leftParen := ne_of_mem_of_not_mem hxs (by decide)
    refine .test_false (fun c hc => ?_) (.bind (.pure (P := (· = [])) rfl) fun as has => .bind (.spanFrom _) fun _ _ =>
      .pure (.mk hu (by rw [has]; exact .nil)))
    rw [isAtArguments, hc.isAt_of_ne hparen, Bool.false_and]
  | cons l ls =>
    refine .test_true (fun c hc => ?_) ?_
    · rw [isAtArguments, hc.isAt_of_eq (k := .leftParen) rfl, hc.sameLine rfl]
      rfl
    · rw [← spellAll_argumentOf]
      exact .bind (reads_valueArguments _) fun as has => .bind (.spanFrom _) fun _ _ =>
        .pure (.mk hu (matches_of_argumentOf has))

theorem reads_annotationUse (a : AnnotationForm) {xs : List Spelling} (hxs : EndsAnnotation xs) :
    Reads annotationUse (a.spell ++ xs) xs a.Matches := by
  obtain ⟨name, more, hspell, hmore⟩ := a.spellBody_eq_cons
  rw [AnnotationForm.spell, List.cons_append]
  refine .bind (.expect rfl) fun mark _ => .test_false (fun c hc => ?_) (.bind (.pure (P := (· = none)) rfl)
    fun _ h => h ▸ reads_annotationBody mark.span a hxs)
  simp [isAtUseSite, hc.secondKind_append hspell, hmore xs hxs]

/-- The annotations in front of a declaration. -/
theorem reads_annotations (as : List AnnotationForm) {xs : List Spelling} (hxs : EndsAnnotation xs)
    (hat : headKind xs ≠ .at) :
    Reads annotations (as.flatMap AnnotationForm.spell ++ xs) xs (List.Forall₂ AnnotationForm.Matches as) := by
  have hgroup : ∀ (a : AnnotationForm) (xs : List Spelling), EndsAnnotation xs →
      Reads (annotationGroup type value) (a.spell ++ xs) xs fun uses => ∃ use, uses = [use] ∧ a.Matches use := by
    intro a xs hxs
    refine .test_false (fun c hc => ?_) (.bind (reads_annotationUse a hxs) fun use h => .pure ⟨use, rfl, h⟩)
    obtain ⟨name, more, hspell, -⟩ := a.spellBody_eq_cons
    rw [hc.secondKind, AnnotationForm.spell, hspell]
    rfl
  refine .bind (.manyWhile AnnotationForm.spell EndsAnnotation (fun a xs c _ hc => hc.isAt_of_eq rfl)
    (fun c hc => hc.isAt_of_ne hat) (fun a => List.cons_ne_nil _ _) (fun a xs => .head _) hxs
    (fun a xs hxs _ => hgroup a xs hxs) as (Nat.le_refl _)) fun groups hgroups => .pure ?_
  induction hgroups with
  | nil => exact .nil
  | cons h _ ih =>
    obtain ⟨use, rfl, huse⟩ := h
    exact .cons huse ih

end TokenParser

end ServiceCatalog
