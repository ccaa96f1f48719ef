import ServiceCatalog.Proofs.Parse.AcrossTypes

/-!
# Annotations and values in front of a seam

Values stand in brackets only, and so in front of a closed seam, where the parts that are tried and given up are given
up in both files or in neither.

* `TokenParser.tracks_type_value`: the knot of types and values, by induction on the number of tokens to come.
-/

namespace ServiceCatalog

namespace TokenParser

open Cursor Seam

/-! ## Groups of items -/

/-- A test that looks no further than to the second token, in front of a closed seam. -/
theorem decides_of_closed {s : Seam} (hs : s.Sound) (hclosed : s.isClosed = true) {P : Cursor → Prop} {α : Type}
    {p : TokenParser α} {t : Cursor → Bool} (kind : TokenKind) (hsingle : kind.isSingle = true)
    (hkind : ∀ c, t c = true → c.kind = kind)
    (hcongr : ∀ c c' : Cursor, c'.kind = c.kind → c'.secondKind = c.secondKind → t c' = t c) :
    s.Decides P t t p := by
  have hfalse : ∀ c : Cursor, c.kind ≠ kind → t c = false := fun c h => Bool.eq_false_iff.mpr fun ht => h (hkind c ht)
  refine .of_eq fun c c' hnear _ => ?_
  have hsame := hnear.kind_of_isClosed hs hclosed
  by_cases hfirst : c.kind = kind
  · obtain ⟨hopening, hclosing, -⟩ := TokenKind.isSingle_iff.mp hsingle
    rcases hnear.cases with hat | hbefore
    · have hend := hat.isClosing hs hclosed
      rw [hfirst, hclosing] at hend
      contradiction
    · have hnext := (hbefore.advance fun _ => hfirst ▸ hopening).kind_of_isClosed hs hclosed
      rw [hbefore.secondKind, hbefore.secondKind'] at hnext
      exact hcongr c c' hsame hnext
  · rw [hfalse c hfirst, hfalse c' (hsame.trans_ne hfirst)]

theorem expect_eq_error {k : TokenKind} {c : Cursor} (h : c.kind ≠ k) : ∃ e, expect k c = .error e c := by
  have hat : c.isAt k = false := Bool.eq_false_iff.mpr fun hat => h (isAt_iff.mp hat)
  exact ⟨_, by rw [expect, hat]; rfl⟩

section Groups

variable {s : Seam} {P : Cursor → Prop} {α β : Type} [HasPlaces α] [HasPlaces β] {n n' : ℕ} (hs : s.Sound)
  {p p' item item' : TokenParser α}

namespace Follows

include hs

/-- Behind an identifier stands the second token. -/
theorem identifier_bind {k : TokenKind} {g g' : Ident → TokenParser β} (hsecond : ∀ c, P c → c.secondKind = k)
    (hg : ∀ i i', unplaced i' = unplaced i → Follows s (fun c => c.kind = k) (g i) (g' i')) :
    Follows s P (TokenParser.identifier >>= g) (TokenParser.identifier >>= g') := by
  refine bind_of (Q := fun _ c => c.kind = k) (identifier hs) (fun c hc hpre i k' hok => ?_) hg
  obtain ⟨hkind, -, rfl⟩ := identifier_eq_ok.mp hok
  rw [kind_advance hc (by rw [hkind]; nofun), hsecond c hpre]

/-- A bracket that is known to come next is passed as one that is wanted. -/
theorem next_bind {opening closing : TokenKind} {f f' : Token → TokenParser α} (hpair : opening.closing? = some closing)
    (hmoves : ∀ n, Forward n (TokenParser.next >>= f))
    (h : Follows s (fun c => c.kind = opening) (TokenParser.expect opening >>= f) (TokenParser.expect opening >>= f')) :
    Follows s (fun c => c.kind = opening) (TokenParser.next >>= f) (TokenParser.next >>= f') := by
  have hnext : ∀ (c : Cursor) (f : Token → TokenParser α), c.kind = opening →
      (TokenParser.expect opening >>= f) c = (TokenParser.next >>= f) c := fun c f hkind => by
    rw [bind_eq_match, bind_eq_match, expect_eq_ok.mpr ⟨hkind, rfl, rfl⟩]
    rfl
  refine ⟨fun c c' hnear hkind => ?_, hmoves⟩
  have hkind' : c'.kind = opening := (hnear.before_of_opening hs (hkind ▸ hpair)).same.kind.trans hkind
  have htracks := h.tracks c c' hnear hkind
  rwa [hnext c f hkind, hnext c' f' hkind'] at htracks

theorem commaList (hclosed : s.isClosed = true) (close : TokenKind) (hitem : Follows s (fun _ => True) item item') :
    Follows s P (TokenParser.commaList close item) (TokenParser.commaList close item') := by
  unfold TokenParser.commaList
  refine .ite_test (.isAt hs (.inl hclosed)) (.pure rfl) (.bind hitem.anywhere fun first first' hfirst => ?_)
  refine .bind (.manyWhile ?_ (.bind (.next hs fun c h => ?_) fun _ _ _ => hitem)) fun others others' hothers => ?_
  · refine decides_of_closed hs hclosed .comma rfl (fun c h => ?_) fun c c' hkind hsecond => ?_
    · rw [Bool.and_eq_true] at h
      exact isAt_iff.mp h.1
    · rw [isAt, isAt, hkind, hsecond]
  · rw [Bool.and_eq_true] at h
    exact isAt_iff.mp h.1 ▸ rfl
  · exact .bind (.eat hs rfl (.inl hclosed)) fun _ _ _ => .pure (congrArg₂ List.cons hfirst hothers)

/-- A parser between two brackets does the same in both files, if it does inside the brackets. -/
theorem between {opening closing : TokenKind} {f f' : Token → α → TokenParser β} (hshift : s.Shifts n n')
    (hpair : opening.closing? = some closing)
    (hp : ∀ s₁ : Seam, s₁.Sound → s₁.isClosed = true → s₁.Shifts n n' → Follows s₁ (fun _ => True) p p')
    (hpasses : Passes false true (fun _ => True) p) (hmoves : ∀ n, Forward n p)
    (hf : ∀ m m' a a', unplaced a' = unplaced a → Follows s (fun _ => True) (f m a) (f' m' a')) :
    Follows s P (TokenParser.expect opening >>= fun m => p >>= fun a => TokenParser.expect closing >>= fun _ => f m a)
      (TokenParser.expect opening >>= fun m => p' >>= fun a => TokenParser.expect closing >>= fun _ => f' m a) := by
  refine ⟨fun c c' hnear _ => ?_, fun n => .bind (.expect _) fun m => .bind (hmoves n) fun a =>
    .bind (.expect _) fun _ => (hf m m a a rfl).moves n⟩
  -- where the group ends in front of the seam, what is in it is the same in both files
  have hgo : ∀ s₁, s.Inside s₁ closing c c' → c.kind = opening → s.Tracks
      ((TokenParser.expect opening >>= fun m => p >>= fun a => TokenParser.expect closing >>= fun _ => f m a) c)
      ((TokenParser.expect opening >>= fun m => p' >>= fun a => TokenParser.expect closing >>= fun _ => f' m a) c') := by
    intro s₁ hinside hkind
    have hkind' : c'.kind = opening := (hnear.before_of_opening hs (hkind ▸ hpair)).same.kind.trans hkind
    have hinner := (hp s₁ hinside.sound hinside.isClosed (hinside.shifts hshift)).tracks _ _ hinside.near trivial
    rw [bind_eq_match, bind_eq_match, expect_eq_ok.mpr ⟨hkind, rfl, rfl⟩, expect_eq_ok.mpr ⟨hkind', rfl, rfl⟩]
    dsimp only
    rw [bind_eq_match, bind_eq_match]
    cases hfirst : p c.advance with
    | error e k =>
      obtain ⟨e', k', hfirst'⟩ := hinner.error hinside.isClosed e k hfirst
      rw [hfirst']
      exact .of_errors
    | ok a k =>
      obtain ⟨a', k', hfirst', ha, hnear'⟩ := hinner.ok a k hfirst (.inl hinside.isClosed)
      rw [hfirst']
      dsimp only
      by_cases hclose : k.kind = closing
      · obtain ⟨-, hclose', hbehind⟩ := hinside.atSeam hnear' (hclose ▸ TokenKind.isClosing_of_closing? hpair)
        rw [bind_eq_match, bind_eq_match, expect_eq_ok.mpr ⟨hclose, rfl, rfl⟩, expect_eq_ok.mpr ⟨hclose', rfl, rfl⟩]
        exact (hf c.peek c'.peek a a' ha).tracks _ _ hbehind trivial
      · have hclose' : k'.kind ≠ closing := (hnear'.kind_of_isClosed hinside.sound hinside.isClosed).trans_ne hclose
        obtain ⟨e, he⟩ := expect_eq_error hclose
        obtain ⟨e', he'⟩ := expect_eq_error hclose'
        rw [bind_eq_match, bind_eq_match, he, he']
        exact .of_errors
  cases hclosed : s.isClosed with
  | true =>
    by_cases hkind : c.kind = opening
    · obtain ⟨s₁, hinside⟩ := hnear.exists_inside hs (hkind ▸ hpair) hclosed
      exact hgo s₁ hinside hkind
    · obtain ⟨e, he⟩ := expect_eq_error hkind
      obtain ⟨e', he'⟩ := expect_eq_error ((hnear.kind_of_isClosed hs hclosed).trans_ne hkind)
      rw [bind_eq_match, bind_eq_match, he, he']
      exact .of_errors
  | false =>
    refine ⟨fun b k hok hk => ?_, fun h => by rw [hclosed] at h; contradiction⟩
    obtain ⟨m, c₁, hopening, hrest⟩ := bind_eq_ok.mp hok
    obtain ⟨a, c₂, hinner, hrest⟩ := bind_eq_ok.mp hrest
    obtain ⟨_, c₃, hclosing, hrest⟩ := bind_eq_ok.mp hrest
    obtain ⟨hkind, rfl, rfl⟩ := expect_eq_ok.mp hopening
    obtain ⟨hkind', -, rfl⟩ := expect_eq_ok.mp hclosing
    have hlead := hpasses c.advance hnear.sound.advance trivial a c₂ hinner
    have hc₂ : c₂.Sound := hlead.sound hnear.sound.advance
    obtain ⟨inner, hinner, -, hrun⟩ := hlead
    have hend : c₂.kind ≠ .eof := by
      rintro heof
      rw [← hkind', heof] at hpair
      exact absurd (TokenKind.isClosing_of_closing? hpair) (by decide)
    obtain ⟨t, rest, hts, rfl⟩ := hc₂.exists_cons hend
    have hlength : s.rest.length ≤ rest.length := by
      have hbehind : s.rest.length ≤ k.size := hk.resolve_left (by rw [hclosed]; nofun)
      have hsize := (precedes_of_ok (hf c.peek c.peek a a rfl).moves hc₂.advance hrest).size_le
      have hbracket : c₂.size = rest.length + 1 := by rw [size, hts, List.length_cons]
      rw [size_advance] at hsize
      omega
    obtain ⟨s₁, hinside⟩ := hnear.exists_inside_of_rest (hkind' ▸ TokenKind.isClosing_of_closing? hpair)
      (hts ▸ hinner) hrun hlength hclosed
    exact (hgo s₁ (hkind' ▸ hinside) hkind).ok b k hok hk

end Follows

end Groups

/-! ## Annotations -/

/-- Whether a parser of values, in front of the brackets that close the groups they are in, does the same as another
one. -/
structure ValuesFollow (n n' : ℕ) (value value' : TokenParser Expr) : Prop where
  follows : ∀ s : Seam, s.Sound → s.isClosed = true → s.Shifts n n' → Follows s (fun _ => True) value value'
  moves : ∀ n, Forward n value
  passes : Passes false true (fun _ => True) value

theorem unplaced_argument {name name' : Option Ident} {isSpread : Bool} {value value' : Expr} {span span' : Span}
    (hname : unplaced name' = unplaced name) (hvalue : unplaced value' = unplaced value) :
    unplaced (⟨name', isSpread, value', span'⟩ : Argument) = unplaced ⟨name, isSpread, value, span⟩ := by
  show Argument.bare _ = Argument.bare _
  simp only [Argument.bare]
  exact congrArg₂ (Argument.mk · isSpread · default) hname hvalue

theorem unplaced_typeRef {element element' : TypeElement} {annotations annotations' : List AnnotationUse} {text : String}
    {span span' : Span} (helement : unplaced element' = unplaced element)
    (hannotations : unplaced annotations' = unplaced annotations) :
    unplaced (⟨element', annotations', text, span'⟩ : TypeRef) = unplaced ⟨element, annotations, text, span⟩ := by
  show TypeRef.bare _ = TypeRef.bare _
  simp only [TypeRef.bare]
  exact congrArg₂ (TypeRef.mk · · text default) helement hannotations

theorem unplaced_user {user user' : UserType} (h : unplaced user' = unplaced user) :
    unplaced (TypeElement.user user') = unplaced (TypeElement.user user) := by
  show TypeElement.bare _ = TypeElement.bare _
  simp only [TypeElement.bare]
  exact congrArg _ h

theorem unplaced_annotationUse {useSite useSite' : Option Ident} {type type' : TypeRef}
    {arguments arguments' : List Argument} {span span' : Span} (huseSite : unplaced useSite' = unplaced useSite)
    (htype : unplaced type' = unplaced type) (harguments : unplaced arguments' = unplaced arguments) :
    unplaced (⟨useSite', type', arguments', span'⟩ : AnnotationUse) = unplaced ⟨useSite, type, arguments, span⟩ := by
  show AnnotationUse.bare _ = AnnotationUse.bare _
  simp only [AnnotationUse.bare]
  rw [huseSite]
  exact congrArg₂ (AnnotationUse.mk (unplaced useSite) · · default) htype harguments

section Annotations

variable {s : Seam} {P : Cursor → Prop} {n n' : ℕ} {type type' : TokenParser TypeRef} {value value' : TokenParser Expr}
  (hs : s.Sound) (hshift : s.Shifts n n') (htype : TypesFollow n n' type type')
  (hvalue : ValuesFollow n n' value value')

include hs in
/-- Near a seam, whether arguments follow the name of an annotation is the same in both files. -/
theorem isAtArguments_of_near {c c' : Cursor} (hnear : s.Near c c') : isAtArguments c' = isAtArguments c := by
  have hparen : c'.isAt .leftParen = c.isAt .leftParen := hnear.isAt hs (.inr (by decide))
  rw [isAtArguments, isAtArguments, hparen]
  cases hat : c.isAt .leftParen with
  | false => rfl
  | true =>
    have hkind : c.kind = .leftParen := isAt_iff.mp hat
    have hpair : c.kind.closing? = some .rightParen := by rw [hkind]; rfl
    have hbefore := hnear.before_of_opening hs hpair
    rw [hbefore.same.newlineBefore]

namespace Follows

include hs hshift hvalue

theorem argument (hclosed : s.isClosed = true) : Follows s P (TokenParser.argument value) (TokenParser.argument value') := by
  unfold TokenParser.argument
  have hread : ∀ {P} (start start' : Span) (name name' : Option Ident), unplaced name' = unplaced name → Follows s P (do
      let isSpread ← TokenParser.eat .star
      let value ← value
      return (⟨name, isSpread, value, ← TokenParser.spanFrom start⟩ : Argument)) (do
      let isSpread ← TokenParser.eat .star
      let value ← value'
      return (⟨name', isSpread, value, ← TokenParser.spanFrom start'⟩ : Argument)) := by
    refine fun {_} start start' name name' hname => .bind (.eat hs rfl (.inl hclosed)) fun spread spread' hspread => ?_
    obtain rfl : spread' = spread := hspread
    refine .bind (hvalue.follows s hs hclosed hshift) fun value value' hvalue => ?_
    exact .bind (.spanFrom _ _) fun _ _ _ => .pure (unplaced_argument hname hvalue)
  refine .bind .nextSpan fun start start' _ => .ite_test ?_ ?_ (.bind (.pure rfl) (hread start start'))
  · refine decides_of_closed hs hclosed .identifier rfl (fun c h => ?_) fun c c' hkind hsecond => ?_
    · rw [Bool.and_eq_true] at h
      exact isAt_iff.mp h.1
    · rw [isAt, isAt, hkind, hsecond]
  · refine .identifier_bind hs (k := .equal) (fun c h => ?_) fun name name' hname => ?_
    · rw [Bool.and_eq_true, beq_iff_eq] at h
      exact h.2.2
    · refine .bind (.next hs fun c h => by rw [h]; rfl) fun _ _ _ => .bind (.pure ?_) (hread start start')
      exact congrArg some hname

theorem valueArgumentsWith :
    Follows s P (TokenParser.valueArgumentsWith value) (TokenParser.valueArgumentsWith value') :=
  .between hs hshift rfl (fun _ hs₁ hclosed hshift₁ => .commaList hs₁ hclosed _ (argument hs₁ hshift₁ hvalue hclosed))
    (passes_commaList _ (passes_argument hvalue.passes)) (fun m => alike_commaList _ (alike_argument (hvalue.moves m)))
    fun _ _ _ _ h => .pure h

include htype

theorem annotationBody (start start' : Span) {useSite useSite' : Option Ident}
    (huseSite : unplaced useSite' = unplaced useSite) : Follows s P
      (TokenParser.annotationBody type value start useSite) (TokenParser.annotationBody type' value' start' useSite') := by
  have hmoves : ∀ n, Forward n (TokenParser.annotationBody type value start useSite) := fun n =>
    (strict_annotationBody (htype.moves n) (hvalue.moves n) start useSite).fewer
  refine .here_bind (fun name name' hnear _ => ?_) hmoves
  refine .bind (userTypeWith hs hshift htype) fun user user' huser => .bind (.textSince hnear) fun text text' htext => ?_
  obtain rfl : text' = text := htext
  refine .bind (.spanFrom _ _) fun span span' _ => ?_
  have hread : ∀ {P} (arguments arguments' : List Argument), unplaced arguments' = unplaced arguments → Follows s P
      (do return (⟨useSite, ⟨.user user, [], text', span⟩, arguments, ← TokenParser.spanFrom start⟩ : AnnotationUse))
      (do return ⟨useSite', ⟨.user user', [], text', span'⟩, arguments', ← TokenParser.spanFrom start'⟩) :=
    fun {_} _ _ harguments => .bind (.spanFrom _ _) fun _ _ _ => .pure
      (unplaced_annotationUse huseSite (unplaced_typeRef (unplaced_user huser) rfl) harguments)
  refine .ite_test (.of_eq fun _ _ hnear _ => isAtArguments_of_near hs hnear) ?_ (.bind (.pure rfl) hread)
  exact .bind (valueArgumentsWith hs hshift hvalue) hread

theorem annotationTail (mark mark' : Token) : Follows s P
    (TokenParser.annotationTail type value mark) (TokenParser.annotationTail type' value' mark') := by
  unfold TokenParser.annotationTail
  refine .ite_test ?_ ?_ (.bind (.pure rfl) fun _ _ h => annotationBody hs hshift htype hvalue _ _ h)
  · refine .of_first hs .identifier rfl (by decide) (fun c h => ?_) ?_ fun c c' hbefore hkind _ => .inl ?_
    · simp only [isAtUseSite, Bool.and_eq_true] at h
      exact isAt_iff.mp h.1.1
    · refine .bind .identifier (fun _ => .identifier) fun _ n => .bind .next fun _ => .bind (.pure _) fun _ => ?_
      exact (strict_annotationBody (htype.moves n) (hvalue.moves n) _ _).fewer
    · have hsecond : (c'.secondKind == .colon) = (c.secondKind == .colon) :=
        hbefore.secondIs hs (by rw [hkind]; rfl) (.inr (by decide))
      rw [isAtUseSite, isAtUseSite, hsecond, hbefore.same.lexeme, isAt, isAt, kind, kind, hbefore.same.kind]
  · refine .identifier_bind hs (k := .colon) (fun c h => ?_) fun target target' htarget => ?_
    · simp only [isAtUseSite, Bool.and_eq_true, beq_iff_eq] at h
      exact h.2.1.2
    · refine .bind (.next hs fun c h => by rw [h]; rfl) fun _ _ _ => .bind (.pure ?_) fun _ _ h =>
        annotationBody hs hshift htype hvalue _ _ h
      exact congrArg some htarget

theorem annotationWith : Follows s P (TokenParser.annotationWith type value) (TokenParser.annotationWith type' value') :=
  .bind (.expect hs rfl) fun _ _ _ => annotationTail hs hshift htype hvalue _ _

theorem typeWith : Follows s P (TokenParser.typeWith type value) (TokenParser.typeWith type' value') := by
  have hmoves : ∀ n, Forward n (TokenParser.typeWith type value) := fun n =>
    (alike_typeWith (htype.moves n) (hvalue.moves n)).mono n.le_succ
  refine .here_bind (fun start start' hnear _ => ?_) hmoves
  have hannotation : Consumes (fun c => c.isAt .at = true) (TokenParser.annotationWith type value) :=
    .of_strict fun n => strict_annotationWith (htype.moves n) (hvalue.moves n)
  refine .bind (.manyWhile (.isAt_at hs hannotation) (annotationWith hs hshift htype hvalue)) fun as as' has => ?_
  have hread : ∀ {P}, Follows s P (do
      let element ← TokenParser.typeElement type
      return (⟨element, as, ← TokenParser.textSince start, ← TokenParser.spanFrom start.peek.span⟩ : TypeRef)) (do
      let element ← TokenParser.typeElement type'
      return ⟨element, as', ← TokenParser.textSince start', ← TokenParser.spanFrom start'.peek.span⟩) := by
    refine fun {_} => .bind (typeElement hs hshift htype) fun e e' he => .bind (.textSince hnear) fun text text' ht => ?_
    obtain rfl : text' = text := ht
    exact .bind (.spanFrom _ _) fun _ _ _ => .pure (unplaced_typeRef he has)
  refine .ite_test ?_ (.bind (.next hs fun c h => ?_) fun _ _ _ => hread) hread
  · refine .of_second hs .identifier rfl (by decide) (fun _ => kind_of_isAtSuspend)
      (fun c h => ?_) (fun c c' hkind hlexeme hsecond => ?_) fun c hc h a k hok => ?_
    · simp only [isAtSuspend, Bool.and_eq_true, Bool.or_eq_true, beq_iff_eq] at h
      rcases h.2 with h | h <;> rw [h] <;> decide
    · simp only [isAtSuspend, isAtWord, isAt, hkind, hlexeme, hsecond]
    · refine size_of_bind (P := (· = c)) (.next fun d hd => ?_) (fun _ => .next) (fun _ => ?_) hc rfl hok
      · rw [hd, kind_of_isAtSuspend h]
        decide
      · refine .bind (consumes_typeElement htype.moves) (fun n => ?_) fun _ _ => .bind (.textSince _) fun _ =>
          .bind (.spanFrom _) fun _ => .pure _
        exact (alike_typeElement (htype.moves n)).mono n.le_succ
  · rw [kind_of_isAtSuspend h.2]
    rfl

end Follows

end Annotations

/-! ## Values -/

/-- The written form of a named type has no places. -/
theorem render_unplaced (u : UserType) : (unplaced u).render = u.render := by
  have hargument : ∀ a : TypeArgument, a.bare.text = a.text := by
    rintro (_ | ⟨⟨_, _, _, _⟩⟩) <;> simp only [TypeArgument.bare, TypeRef.bare, TypeArgument.text]
  have hsegment : ∀ s : TypeSegment, s.bare.render = s.render := by
    rintro ⟨name, arguments, _⟩
    simp only [TypeSegment.bare, TypeSegment.render, List.isEmpty_map, List.map_map, Function.comp_def, hargument]
    rfl
  obtain ⟨qualifier, last⟩ := u
  show (UserType.bare _).render = _
  simp only [UserType.bare, UserType.render, UserType.segments, List.map_append, List.map_map, Function.comp_def,
    List.map_cons, List.map_nil, hsegment]

theorem unplaced_receiverType (start : Span) (arguments : List TypeArgument) (first : Ident) (others : List Ident) :
    unplaced (receiverType start arguments first others) =
      ⟨((unplaced first :: unplaced others).dropLast.map (⟨·, [], default⟩)),
        ⟨(unplaced others).getLastD (unplaced first), unplaced arguments, default⟩⟩ := by
  have hlast : unplaced (others.getLastD first) = (others.map unplaced).getLastD (unplaced first) := by
    rw [List.getLastD_eq_getLast?, List.getLastD_eq_getLast?, List.getLast?_map, Option.getD_map]
  have hqualifier : ((first :: others).dropLast.map fun i => (⟨unplaced i, [], default⟩ : TypeSegment)) =
      (unplaced first :: others.map unplaced).dropLast.map (⟨·, [], default⟩) := by
    rw [← List.map_cons, ← List.map_dropLast, List.map_map]
    rfl
  show UserType.bare _ = _
  simp only [receiverType, UserType.bare, TypeSegment.bare, List.map_map, Function.comp_def, List.map_nil]
  rw [hlast, hqualifier]
  rfl

theorem unplaced_name {i i' : Ident} (h : unplaced i' = unplaced i) : unplaced (Expr.name i') = unplaced (Expr.name i) := by
  show Expr.bare _ = Expr.bare _
  simp only [Expr.bare]
  exact congrArg _ h

theorem unplaced_path {segments segments' : List Ident} {span span' : Span}
    (h : unplaced segments' = unplaced segments) :
    unplaced (Expr.path ⟨segments', span'⟩) = unplaced (Expr.path ⟨segments, span⟩) := by
  show Expr.bare _ = Expr.bare _
  simp only [Expr.bare]
  exact congrArg (fun s => Expr.path ⟨s, default⟩) h

theorem unplaced_classLiteral {receiver receiver' : Expr} {span span' : Span} (h : unplaced receiver' = unplaced receiver) :
    unplaced (Expr.classLiteral receiver' span') = unplaced (Expr.classLiteral receiver span) := by
  show Expr.bare _ = Expr.bare _
  simp only [Expr.bare]
  exact congrArg (Expr.classLiteral · default) h

theorem unplaced_collection {elements elements' : List Expr} {span span' : Span}
    (h : unplaced elements' = unplaced elements) :
    unplaced (Expr.collection elements' span') = unplaced (Expr.collection elements span) := by
  show Expr.bare _ = Expr.bare _
  simp only [Expr.bare]
  exact congrArg (Expr.collection · default) h

section Values

variable {s : Seam} {P : Cursor → Prop} {n n' : ℕ} {type type' : TokenParser TypeRef} {value value' : TokenParser Expr}
  (hs : s.Sound) (hclosed : s.isClosed = true) (hshift : s.Shifts n n') (htype : TypesFollow n n' type type')
  (hvalue : ValuesFollow n n' value value')

namespace Follows

include hs hclosed

/-- Near a closed seam, whether an argument ends is the same in both files. -/
theorem isAtArgumentEnd_of_near {c c' : Cursor} (hnear : s.Near c c') : isAtArgumentEnd c' = isAtArgumentEnd c := by
  have hat : ∀ k, c'.isAt k = c.isAt k := fun k => hnear.isAt hs (.inl hclosed)
  simp only [isAtArgumentEnd, hat]

theorem otherValue : Follows s P TokenParser.otherValue TokenParser.otherValue := by
  refine .here_bind (fun start start' hstart _ => ?_) fun n => forward_otherValue
  have hend : ∀ c c', s.Near c c' → (isAtArgumentEnd c' || c'.isAt .rightBrace) = (isAtArgumentEnd c || c.isAt .rightBrace) :=
    fun c c' hnear => by rw [isAtArgumentEnd_of_near hs hclosed hnear, hnear.isAt hs (.inl hclosed)]
  have htext : ∀ {P}, Follows s P (do
      return (Expr.other (← TokenParser.textSince start) (← TokenParser.spanFrom start.peek.span)))
      (do return (Expr.other (← TokenParser.textSince start') (← TokenParser.spanFrom start'.peek.span))) := by
    refine fun {_} => .bind (.textSince hstart) fun text text' htext => .bind (.spanFrom _ _) fun _ _ _ => .pure ?_
    obtain rfl : text' = text := htext
    show Expr.bare _ = Expr.bare _
    simp only [Expr.bare]
  refine .bind (.skipUntil hs (.of_eq fun c c' hnear _ => ?_) fun c h _ => ?_) fun _ _ _ => ?_
  · rw [hend c c' hnear, isAtEnd, isAtEnd, hnear.isAt hs (.inl hclosed)]
  · simp only [isAtArgumentEnd, isAt, Bool.or_eq_false_iff, beq_eq_false_iff_ne] at h
    generalize c.kind = k at *
    cases k <;> simp_all [TokenKind.isClosing]
  · refine .ite_test (.isAt hs (.inl hclosed)) (.bind (.failAtNext _ _) fun _ _ _ => ?_) ?_
    all_goals
      refine .ite_test (.of_eq fun c c' hnear _ => ?_) (.bind (.failAtNext _ _) fun _ _ _ => htext) htext
      have hless := hstart.size_lt_iff hnear
      simp only [hless]

include hshift htype

theorem receiver : Follows s P (TokenParser.receiver type) (TokenParser.receiver type') := by
  unfold TokenParser.receiver
  refine .bind .nextSpan fun start start' _ => .bind (.identifier hs) fun first first' hfirst => ?_
  refine .bind (dotIdentifiers hs) fun others others' hothers => .ite_test (.isAt hs (.inl hclosed)) ?_ ?_
  · refine .bind (typeArguments hs hshift htype) fun as as' has => .bind (.spanFrom _ _) fun _ _ _ => .pure ?_
    have huser : unplaced (receiverType start' as' first' others') = unplaced (receiverType start as first others) := by
      rw [unplaced_receiverType, unplaced_receiverType, has, hfirst, hothers]
    rw [← render_unplaced (receiverType start' as' first' others'), huser, render_unplaced]
    show Expr.bare _ = Expr.bare _
    simp only [Expr.bare]
    exact congrArg _ (unplaced_typeRef (unplaced_user huser) rfl)
  · cases others with
    | nil =>
      cases others' with
      | nil => exact .pure (unplaced_name hfirst)
      | cons _ _ => contradiction
    | cons second others =>
      cases others' with
      | nil => contradiction
      | cons second' others' =>
        exact .bind (.spanFrom _ _) fun _ _ _ => .pure (unplaced_path (congrArg₂ List.cons hfirst hothers))

theorem classLiteral : Follows s P (TokenParser.classLiteral type) (TokenParser.classLiteral type') := by
  unfold TokenParser.classLiteral
  refine .bind .nextSpan fun start start' _ => .bind (receiver hs hclosed hshift htype) fun e e' he => ?_
  exact .bind (.expect hs rfl) fun _ _ _ => .bind (.expect hs rfl) fun _ _ _ => .bind (.spanFrom _ _) fun _ _ _ =>
    .pure (unplaced_classLiteral he)

include hvalue

omit htype hclosed in
theorem collection : Follows s P (TokenParser.collection value) (TokenParser.collection value') := by
  refine .between hs hshift rfl (fun s₁ hs₁ hclosed hshift₁ => ?_) (passes_commaList _ hvalue.passes)
    (fun m => alike_commaList _ (hvalue.moves m)) fun _ _ _ _ h => .bind (.spanFrom _ _) fun _ _ _ => .pure (unplaced_collection h)
  exact .commaList hs₁ hclosed _ (hvalue.follows s₁ hs₁ hclosed hshift₁)

theorem structuredValue : Follows s P (TokenParser.structuredValue type value) (TokenParser.structuredValue type' value') := by
  unfold TokenParser.structuredValue
  refine .ite_test (.isAt hs (.inl hclosed)) ?_ (.attempt hclosed (classLiteral hs hclosed hshift htype))
  exact .bind (collection hs hshift hvalue) fun _ _ h => .pure (congrArg some h)

theorem valueWith : Follows s P (TokenParser.valueWith type value) (TokenParser.valueWith type' value') where
  tracks c c' hnear _ := by
    have hstart : ∀ (type : TokenParser TypeRef) (value : TokenParser Expr) (c : Cursor),
        TokenParser.valueWith type value c = match TokenParser.structuredValue type value c with
          | .error e k => .error e k
          | .ok (some e) k => if isAtArgumentEnd k = true then .ok e k else TokenParser.otherValue c
          | .ok none _ => TokenParser.otherValue c := by
      intro type value c
      unfold TokenParser.valueWith
      rw [bind_eq_match]
      simp only [here]
      rw [bind_eq_match]
      cases TokenParser.structuredValue type value c with
      | error e k => rfl
      | ok found k =>
        cases found with
        | none => rfl
        | some e =>
          dsimp only
          rw [bind_eq_match]
          unfold here
          dsimp only
          cases isAtArgumentEnd k <;> rfl
    have hfirst := (structuredValue (P := fun _ => True) hs hclosed hshift htype hvalue).tracks c c' hnear trivial
    have hother := (otherValue (P := fun _ => True) hs hclosed).tracks c c' hnear trivial
    rw [hstart, hstart]
    cases hstructured : TokenParser.structuredValue type value c with
    | error e k =>
      obtain ⟨e', k', hstructured'⟩ := hfirst.error hclosed e k hstructured
      rw [hstructured']
      exact .of_errors
    | ok found k =>
      obtain ⟨found', k', hstructured', hfound, hnear'⟩ := hfirst.ok found k hstructured (.inl hclosed)
      rw [hstructured']
      cases found with
      | none =>
        cases found' with
        | none => exact hother
        | some _ => contradiction
      | some e =>
        cases found' with
        | none => contradiction
        | some e' =>
          dsimp only
          rw [isAtArgumentEnd_of_near hs hclosed hnear']
          split
          · exact ⟨fun a m hok _ => by cases hok; exact ⟨_, _, rfl, Option.some.inj hfound, hnear'⟩,
              fun _ _ _ h => by contradiction⟩
          · exact hother
  moves n := (alike_valueWith (htype.moves n) (hvalue.moves n)).mono n.le_succ

end Follows

end Values

/-! ## The knot -/

theorem Consumes.behind {P : Cursor → Prop} {α β : Type} {p : TokenParser α} {f : α → TokenParser β}
    (hmoves : ∀ n, Forward n p) (hf : ∀ a, Consumes (fun _ => True) (f a)) : Consumes P (p >>= f) := by
  intro c hc _ b k hok
  obtain ⟨a, c₁, hfirst, hsecond⟩ := bind_eq_ok.mp hok
  have hmoves := precedes_of_ok hmoves hc hfirst
  exact Nat.lt_of_lt_of_le (hf a c₁ (hmoves.sound hc) trivial b k hsecond) hmoves.size_le

theorem forward_below {α : Type} {start : Cursor} {p : TokenParser α} (hp : ∀ n, Forward n p) (n : ℕ) :
    Forward n (below start fun c _ => p c) := by
  intro c hc hless
  refine ⟨rfl, ?_⟩
  rw [below]
  split
  · exact (hp n c hc hless).2
  · exact .refl

/-- A type has a token. -/
theorem consumes_type {P : Cursor → Prop} : Consumes P type := by
  intro c hc _ t k hok
  have htype : ∀ n, Forward n (below c fun d _ => type d) := forward_below forward_type
  have hvalue : ∀ n, Forward n (below c fun d _ => value d) := forward_below forward_value
  rw [type] at hok
  obtain ⟨start, _, hhere, hok⟩ := bind_eq_ok.mp hok
  cases hhere
  have hread : ∀ {P} (as : List AnnotationUse), Consumes P (do
      let element ← typeElement (below c fun d _ => type d)
      return (⟨element, as, ← textSince c, ← spanFrom c.peek.span⟩ : TypeRef)) := fun {_} as =>
    .bind (consumes_typeElement htype) (fun n => (alike_typeElement (htype n)).mono n.le_succ) fun _ _ =>
      .bind (.textSince _) fun _ => .bind (.spanFrom _) fun _ => .pure _
  refine Consumes.behind (P := fun _ => True) (fun n => .manyWhile ?_) (fun as => ?_) c hc trivial t k hok
  · exact (strict_annotationWith (htype n) (hvalue n)).fewer
  · exact .ite_test (.behind (fun _ => .next) fun _ => hread as) (hread as)

/-- What types and values are in front of a seam is the same in both files, by induction on the number of tokens to
come. -/
theorem tracks_type_value {s : Seam} (hs : s.Sound) {c c' : Cursor} (hnear : s.Near c c') :
    s.Tracks (type c) (type c') ∧ (s.isClosed = true → s.Tracks (value c) (value c')) := by
  induction hsize : c.size using Nat.strongRecOn generalizing s c c' with
  | _ size ih =>
    -- inside the type or the value, the guards of both files agree
    have hguard : ∀ {α : Type} [HasPlaces α] {p : TokenParser α} {s₁ : Seam}, s₁.Shifts c.size c'.size →
        (∀ d d', s₁.Near d d' → d.size < c.size → s₁.Tracks (p d) (p d')) → ∀ d d', s₁.Near d d' →
        s₁.Tracks (below c (fun d _ => p d) d) (below c' (fun d _ => p d) d') := by
      intro α _ p s₁ hshift hp d d' hnear'
      have hd := hnear'.size
      unfold Shifts at hshift
      rw [below, below]
      by_cases hless : d.size < c.size
      · rw [dif_pos hless, dif_pos (by omega)]
        exact hp d d' hnear' hless
      · rw [dif_neg hless, dif_neg (by omega)]
        exact .of_errors
    have hshift : s.Shifts c.size c'.size := by
      have := hnear.size
      unfold Shifts
      omega
    have htype : TypesFollow c.size c'.size (below c fun d _ => type d) (below c' fun d _ => type d) := by
      refine ⟨fun s₁ hs₁ hshift₁ => ⟨fun d d' hnear' _ => ?_, forward_below forward_type⟩, forward_below forward_type, ?_, ?_⟩
      · exact hguard hshift₁ (fun d d' hnear' hless => (ih d.size (hsize ▸ hless) hs₁ hnear' rfl).1) d d' hnear'
      · intro d hd _ t k hok
        rw [below] at hok
        split at hok
        · exact consumes_type (P := fun _ => True) d hd trivial t k hok
        · contradiction
      · exact takes_below fun d hd _ t k hok => (passes_type (P := fun _ => True)).mono id (fun _ => rfl) d hd trivial t k hok
    have hvalue : ValuesFollow c.size c'.size (below c fun d _ => value d) (below c' fun d _ => value d) := by
      refine ⟨fun s₁ hs₁ hclosed hshift₁ => ⟨fun d d' hnear' _ => ?_, forward_below forward_value⟩,
        forward_below forward_value, takes_below fun d hd _ e k hok => passes_value (P := fun _ => True) d hd trivial e k hok⟩
      exact hguard hshift₁ (fun d d' hnear' hless => (ih d.size (hsize ▸ hless) hs₁ hnear' rfl).2 hclosed) d d' hnear'
    rw [type, type, value, value]
    exact ⟨(Follows.typeWith (P := fun _ => True) hs hshift htype hvalue).tracks c c' hnear trivial, fun hclosed =>
      (Follows.valueWith (P := fun _ => True) hs hclosed hshift htype hvalue).tracks c c' hnear trivial⟩

theorem typesFollow (n n' : ℕ) : TypesFollow n n' type type where
  follows _ hs _ := ⟨fun _ _ hnear _ => (tracks_type_value hs hnear).1, forward_type⟩
  moves := forward_type
  consumes := consumes_type
  takes := (passes_type (P := fun _ => True)).mono id fun _ => rfl

theorem valuesFollow (n n' : ℕ) : ValuesFollow n n' value value where
  follows _ hs hclosed _ := ⟨fun _ _ hnear _ => (tracks_type_value hs hnear).2 hclosed, forward_value⟩
  moves := forward_value
  passes := passes_value

/-- Behind a seam, the files are as long as they are. -/
theorem shifts_rest (s : Seam) : s.Shifts s.rest.length s.rest'.length := Nat.add_comm ..

/-- A parser that has passed a token where it succeeds needs to be looked at in front of a seam only. -/
theorem Follows.of_before {s : Seam} (hs : s.Sound) {P : Cursor → Prop} {α : Type} [HasPlaces α] {p p' : TokenParser α}
    (hsingle : ∀ c, P c → c.kind.isSingle = true) (hp : Consumes P p)
    (h : Follows s (fun c => P c ∧ s.rest.length < c.size) p p') : Follows s P p p' where
  tracks c c' hnear hc := by
    rcases hnear.cases with hat | hbefore
    · obtain ⟨-, hclosing, heof⟩ := TokenKind.isSingle_iff.mp (hsingle c hc)
      cases hclosed : s.isClosed with
      | true =>
        have hend := hat.isClosing hs hclosed
        rw [hclosing] at hend
        contradiction
      | false =>
        obtain ⟨hsize, -⟩ := (hat.of_not_isClosed hs hclosed).resolve_left heof
        exact .of_beyond hclosed fun a k hok => hsize ▸ hp c hnear.sound hc a k hok
    · exact h.tracks c c' hnear ⟨hc, hbefore.length_lt⟩
  moves := h.moves

/-- A cursor with more tokens to come than are behind a seam is in front of the seam. -/
theorem before_of_length_lt {s : Seam} {c c' : Cursor} (h : s.Near c c') (hlength : s.rest.length < c.size) :
    s.Before c c' := by
  rcases h.cases with hat | hbefore
  · rw [size, hat.rest] at hlength
    omega
  · exact hbefore

section Knot

variable {s : Seam} (hs : s.Sound) {P : Cursor → Prop}

namespace Follows

include hs

theorem type : Follows s P TokenParser.type TokenParser.type :=
  ((typesFollow _ _).follows s hs (shifts_rest s)).anywhere

theorem annotationUse : Follows s P TokenParser.annotationUse TokenParser.annotationUse :=
  .annotationWith hs (shifts_rest s) (typesFollow _ _) (valuesFollow _ _)

/-- The annotations of a group, from its bracket onwards. -/
theorem groupEntries (mark mark' : Token) : Follows s (fun c => c.kind = .leftBracket) (do
      let _ ← TokenParser.next
      let entries ← TokenParser.manyWhile (fun c => !c.isAt .rightBracket)
        (TokenParser.annotationBody TokenParser.type value mark.span none)
      let _ ← TokenParser.expect .rightBracket
      return entries) (do
      let _ ← TokenParser.next
      let entries ← TokenParser.manyWhile (fun c => !c.isAt .rightBracket)
        (TokenParser.annotationBody TokenParser.type value mark'.span none)
      let _ ← TokenParser.expect .rightBracket
      return entries) := by
  have hshift := shifts_rest s
  have hpasses : Passes false true (fun _ => True) (TokenParser.manyWhile (fun c => !c.isAt .rightBracket)
      (TokenParser.annotationBody TokenParser.type value mark.span none)) :=
    .manyWhile (Passes.mono id (fun _ => rfl) (takes_annotationBody passes_type passes_value _ _))
  have hmoves : ∀ n, Forward n (TokenParser.manyWhile (fun c => !c.isAt .rightBracket)
      (TokenParser.annotationBody TokenParser.type value mark.span none)) := fun n =>
    .manyWhile (strict_annotationBody (forward_type n) (forward_value n) _ _).fewer
  refine .next_bind hs rfl (fun n => .bind .next fun _ => .bind (hmoves n) fun _ => .bind (.expect _) fun _ => .pure _) ?_
  exact .between hs hshift rfl (fun _ hs₁ hclosed hshift₁ => .manyWhile
    (.of_eq fun _ _ hnear _ => by rw [hnear.isAt hs₁ (.inl hclosed)])
    (annotationBody hs₁ hshift₁ (typesFollow _ _) (valuesFollow _ _) _ _ rfl)) hpasses hmoves fun _ _ _ _ h => .pure h

theorem annotationGroup : Follows s (fun c => c.isAt .at = true) (TokenParser.annotationGroup TokenParser.type value)
    (TokenParser.annotationGroup TokenParser.type value) := by
  refine .of_before hs (fun c h => isAt_iff.mp h ▸ rfl) consumes_annotationGroup ?_
  unfold TokenParser.annotationGroup
  refine .ite_test (.of_eq fun c c' hnear hc => ?_) ?_ ?_
  · have hbefore := before_of_length_lt hnear hc.2
    exact hbefore.secondIs hs (by rw [isAt_iff.mp hc.1]; rfl) (.inr (by decide))
  · refine .bind_of (Q := fun _ c => c.kind = .leftBracket) (.next hs fun c h => isAt_iff.mp h.1.1 ▸ rfl) ?_
      fun mark mark' _ => groupEntries hs mark mark'
    rintro c hc ⟨⟨hat, -⟩, hsecond⟩ _ _ hok
    cases hok
    rw [kind_advance hc (by rw [isAt_iff.mp hat]; nofun)]
    exact beq_iff_eq.mp hsecond
  · exact .bind (annotationUse hs) fun _ _ h => .pure (congrArg (· :: []) h)

theorem annotations : Follows s P TokenParser.annotations TokenParser.annotations := by
  unfold TokenParser.annotations TokenParser.annotationsWith
  refine .bind (.manyWhile (.isAt_at hs consumes_annotationGroup) (annotationGroup hs)) fun as as' has => .pure ?_
  show (as'.flatten).map unplaced = (as.flatten).map unplaced
  rw [List.map_flatten, List.map_flatten]
  exact congrArg List.flatten has

end Follows

end Knot

end TokenParser

end ServiceCatalog
