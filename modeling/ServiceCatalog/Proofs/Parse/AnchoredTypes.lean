import ServiceCatalog.Proofs.Parse.Anchors
import ServiceCatalog.Proofs.Parse.BracketLanguage
import ServiceCatalog.Proofs.Parse.WrittenTypes

/-!
# Types, annotations and values are anchored

Each construct begins with the token at which its parser is called, or with an earlier one that the parser was told of,
and it has passed a token where its span is taken.  So the span begins where the construct does
(`Cursor.start_spanFrom`): the token passed last is not in front of it, also where a construct was tried from there and
given up.

The walk is along the constructs, over the parsers of types and values with fewer than `n` tokens to come, and the knot
is tied by induction on the tokens to come (`yields_type_value`).
-/

namespace ServiceCatalog

namespace TokenParser

open Cursor

open Node (Anchored IsBuiltAt anchored_ident anchored_segment anchored_userType anchored_nullable)

variable {b c : Cursor} {α : Type}

/-! ## Tokens and groups -/

theorem yields_expect (hb : b.Sound) (hc : b.Precedes c) {k : TokenKind} (hk : k ≠ .eof) :
    Yields b c (expect k) fun t d => t = c.peek ∧ c.kind = k ∧ d.size < c.size :=
  .expect hc fun hkind => ⟨rfl, hkind, size_advance_lt (hc.sound hb) (hkind ▸ hk)⟩

theorem yields_identifier (hb : b.Sound) (hc : b.Precedes c) :
    Yields b c identifier fun i d => c.kind = .identifier ∧ i.span = c.peek.span ∧ d.size < c.size :=
  .identifier hc fun hkind => ⟨hkind, rfl, size_advance_lt (hc.sound hb) (by rw [hkind]; nofun)⟩

/-- The error of a group is about the bracket that closes another one, or about the end of the file. -/
theorem yields_skipGroup (hb : b.Sound) (hc : b.Precedes c) : Yields b c skipGroup fun _ _ => True where
  reads _ _ hok := ⟨precedes_of_ok forward_skipGroup (hc.sound hb) hok, trivial⟩
  blames e c' herror := by
    have hmoves := precedes_stop forward_skipGroup (hc.sound hb)
    rw [herror] at hmoves
    refine ⟨hmoves, ?_⟩
    by_cases hopening : c.kind.isOpening = true
    · rcases (skipGroup_eq_error_iff (hc.sound hb) hopening e c').mp herror with
        ⟨passed, due, outer, found, rest, hrest, -, -, -, rfl, rfl⟩ | ⟨due, -, rfl, rfl⟩
      · exact ⟨_, hc.trans (.skip passed.length), by simp [mismatched, peek, peekNth, Cursor.skip, hrest]⟩
      · exact ⟨_, hc.trans (.skip c.size), by simp [ParseError.unexpectedEof, peek, peekNth, Cursor.skip, size]⟩
    · have hnone : c.kind.closing? = none := Option.eq_none_iff_forall_ne_some.mpr fun k hk =>
        hopening (TokenKind.isOpening_iff.mpr ⟨k, hk⟩)
      rw [skipGroup_of_not_opening hnone] at herror
      cases herror
      exact ⟨c, hc, rfl⟩

theorem yields_skipOne (hb : b.Sound) (hc : b.Precedes c) : Yields b c skipOne fun _ _ => True := by
  by_cases hopening : c.kind.isOpening = true
  · exact .of_eq (by rw [skipOne, if_pos hopening]) .refl (yields_skipGroup hb hc)
  · exact .of_ok (by rw [skipOne, if_neg hopening]) .advance trivial

theorem yields_skipUntil (hb : b.Sound) (hc : b.Precedes c) (ends : Cursor → Bool) :
    Yields b c (skipUntil ends) fun _ _ => True := by
  have hmany : Yields b c (manyWhile (fun c => !c.isAtEnd && !ends c) skipOne) fun _ _ => True :=
    (Yields.manyWhile (R := fun _ => True) fun d hd _ => yields_skipOne hb (hc.trans hd)).mono fun _ _ _ _ => trivial
  exact .of_eq (q := manyWhile (fun c => !c.isAtEnd && !ends c) skipOne >>= fun _ => pure ())
    (by rw [skipUntil_eq]) .refl (hmany.bind fun _ _ _ _ => .pure trivial)

/-! ## Names with dots between them -/

/-- Each name behind a dot has what names have behind the place. -/
theorem yields_dotIdentifiers (hb : b.Sound) (hc : b.Precedes c) {R : Ident → Prop}
    (hR : ∀ d i, c.Precedes d → d.kind = .identifier → i.span = d.peek.span → R i) {t : Cursor → Bool} :
    Yields b c (manyWhile t dotIdentifier) fun is _ => ∀ i ∈ is, R i := by
  refine .manyWhile fun d hd _ => .next_bind ?_
  have hmoves := hd.trans .advance
  exact (yields_identifier hb (hc.trans hmoves)).mono fun i _ _ hi => hR _ i hmoves hi.1 hi.2.1

/-- Items with commas between them, up to a closing bracket. -/
theorem yields_commaList (close : TokenKind) {item : TokenParser α} {R : α → Prop}
    (hitem : ∀ d, c.Precedes d → Yields b d item fun a _ => R a) :
    Yields b c (commaList close item) fun as _ => ∀ a ∈ as, R a := by
  unfold commaList
  refine .ite_test (fun _ => .pure nofun) fun _ => (hitem c .refl).bind fun first d hd hfirst => ?_
  have hothers : Yields b d (manyWhile (fun c => c.isAt .comma && c.secondKind != close) (do let _ ← next; item))
      fun as _ => ∀ a ∈ as, R a :=
    .manyWhile fun e he _ => .next_bind (hitem _ ((hd.trans he).trans .advance))
  exact hothers.bind fun others e _ hothers => .eat_bind fun _ _ _ => .pure (List.forall_mem_cons.mpr ⟨hfirst, hothers⟩)

/-! ## Types -/

section Constructs

variable (hb : b.Sound) (ho : b.Ordered) {n : Nat}
  (htype : ∀ c, b.Precedes c → c.size < n → Yields b c type fun t _ => Anchored b (.type t))
  (hvalue : ∀ c, b.Precedes c → c.size < n → Yields b c value fun e d => d.size < c.size ∧ Anchored b (.expr e))

section Types

include htype

theorem yields_typeArgument (hc : b.Precedes c) (hless : c.size < n) :
    Yields b c (typeArgument type) fun a _ => Anchored b (.typeArgument a) := by
  have hread : ∀ d, c.Precedes d → Yields b d (do return .type (← type)) fun a _ => Anchored b (.typeArgument a) :=
    fun d hd => (htype d (hc.trans hd) (hd.size_le.trans_lt hless)).bind fun t _ _ ht =>
      .pure (.of_parts nofun (List.forall_mem_singleton.mpr ht))
  unfold typeArgument
  refine .eat?_bind (.pure ?_) (.ite_test (fun _ => .next_bind (hread _ .advance)) fun _ => hread c .refl)
  exact IsBuiltAt.anchored ⟨fun _ hs => Option.some.inj hs ▸ rfl, nofun⟩ hc trivial

include hb

theorem yields_typeArguments (hc : b.Precedes c) (hless : c.size < n + 1) :
    Yields b c (typeArguments type) fun as _ => ∀ a ∈ as, Anchored b (.typeArgument a) := by
  unfold typeArguments
  refine (yields_expect hb hc (by decide)).bind fun _ d hd hmark => ?_
  have hargument : ∀ e, d.Precedes e → Yields b e (typeArgument type) fun a _ => Anchored b (.typeArgument a) :=
    fun e he => yields_typeArgument htype ((hc.trans hd).trans he) (he.size_le.trans_lt (by omega))
  refine (hargument d .refl).bind fun first e he hfirst => ?_
  have hothers : Yields b e (manyWhile (·.isAt .comma) (do let _ ← next; typeArgument type)) fun as _ =>
      ∀ a ∈ as, Anchored b (.typeArgument a) :=
    .manyWhile fun k hk _ => .next_bind (hargument _ ((he.trans hk).trans .advance))
  refine hothers.bind fun others k hk hothers => ?_
  refine (yields_expect hb (((hc.trans hd).trans he).trans hk) (by decide)).bind fun _ _ _ _ => ?_
  exact .pure (List.forall_mem_cons.mpr ⟨hfirst, hothers⟩)

include ho

/-- The segments of a type begin where the type does. -/
theorem yields_typeSegment {s : Cursor} (hs : b.Precedes s) (hc : s.Precedes c) (hless : c.size < n + 1) :
    Yields b c (typeSegment type s.peek.span) fun t d => d.size < c.size ∧ Anchored b (.segment t) := by
  unfold typeSegment
  have hbc := hs.trans hc
  refine (yields_identifier hb hbc).bind fun name d hd hname => ?_
  have hend : ∀ as e, d.Precedes e → (∀ a ∈ as, Anchored b (.typeArgument a)) → Yields b e (do
      return (⟨name, as, ← spanFrom s.peek.span⟩ : TypeSegment)) fun t k =>
        k.size < c.size ∧ Anchored b (.segment t) := by
    intro as e he has
    have hsize : e.size < c.size := he.size_le.trans_lt hname.2.2
    refine .spanFrom_bind (.pure ⟨hsize, anchored_segment hs ?_ (anchored_ident hbc hname.2.1) has⟩)
    exact start_spanFrom (hs.ordered ho) ((hc.trans hd).trans he) (hsize.trans_le hc.size_le)
  refine .ite_test (fun _ => ?_) fun _ => .pure_bind (hend [] d .refl nofun)
  exact (yields_typeArguments hb htype (hbc.trans hd) (hd.size_le.trans_lt hless)).bind fun as e he has => hend as e he has

theorem yields_userTypeWith (hc : b.Precedes c) (hless : c.size < n + 1) :
    Yields b c (userTypeWith type) fun u d => d.size < c.size ∧ ∀ s ∈ u.segments, Anchored b (.segment s) := by
  unfold userTypeWith
  refine .nextSpan_bind ?_
  have hsegment : ∀ e, c.Precedes e → Yields b e (typeSegment type c.peek.span) fun t k =>
      k.size < e.size ∧ Anchored b (.segment t) := fun e he =>
    yields_typeSegment hb ho htype hc he (he.size_le.trans_lt hless)
  refine (hsegment c .refl).bind fun first e he hfirst => ?_
  have hothers : Yields b e (manyWhile isAtDotIdentifier (do let _ ← next; typeSegment type c.peek.span)) fun ss _ =>
      ∀ s ∈ ss, Anchored b (.segment s) :=
    .manyWhile fun k hk _ => .next_bind ((hsegment _ ((he.trans hk).trans .advance)).mono fun _ _ _ h => h.2)
  refine hothers.bind fun others k hk hothers => .pure ⟨hk.size_le.trans_lt hfirst.1, ?_⟩
  rw [segments_userTypeOf]
  exact List.forall_mem_cons.mpr ⟨hfirst.2, hothers⟩

/-- A function type begins where its receiver does. -/
theorem yields_functionTail {s : Cursor} (hs : b.Precedes s) (hc : s.Precedes c) (hless : c.size < n + 1) :
    Yields b c (functionTail type s.peek.span) fun e _ => Anchored b (.element e) := by
  have hbc := hs.trans hc
  have hread : Yields b c (do
      skipGroup
      let _ ← expect .arrow
      let _ ← type
      return .function (← spanFrom s.peek.span)) fun e _ => Anchored b (.element e) := by
    refine ((yields_skipGroup hb hbc).consuming (Consumes.of_strict (P := fun _ => True) fun _ => strict_skipGroup _)
      (hbc.sound hb) trivial).bind fun _ d hd hgroup => ?_
    refine (yields_expect hb (hbc.trans hd) (by decide)).bind fun _ e he harrow => ?_
    refine (htype e ((hbc.trans hd).trans he) (by omega)).bind fun _ k hk _ => .spanFrom_bind (.pure ?_)
    have hstart := start_spanFrom (hs.ordered ho) (((hc.trans hd).trans he).trans hk)
      (hk.size_le.trans_lt (harrow.2.2.trans (hgroup.1.trans_le hc.size_le)))
    exact IsBuiltAt.anchored ⟨fun _ hs => Option.some.inj hs ▸ hstart, nofun⟩ hs trivial
  unfold functionTail
  exact .ite_test (fun _ => .failAtNext_bind hbc rfl) fun _ => hread

/-- What opens with a parenthesis is tried as a type in parentheses, and then read again as a function type. -/
theorem yields_parenthesizedOrFunction (hc : b.Precedes c) (hless : c.size < n + 1) (hparen : c.kind = .leftParen) :
    Yields b c (parenthesizedOrFunction type) fun e _ => Anchored b (.element e) := by
  have hparens : Yields b c (parenthesized type) fun found _ => ∀ e, found = some e → Anchored b (.element e) := by
    unfold parenthesized
    have hbehind : c.advance.size < n := by
      have := size_advance_lt (hc.sound hb) (by rw [hparen]; nofun)
      omega
    refine .next_bind ((htype _ (hc.trans .advance) hbehind).attempt.bind fun found e he hfound => ?_)
    cases found with
    | none => exact .pure nofun
    | some t =>
      have ht : Anchored b (.type t) := by
        rcases hfound with ⟨hnone, -⟩ | ⟨t', hsome, ht⟩
        · contradiction
        · exact Option.some.inj hsome ▸ ht
      have helement : Anchored b (.element t.element) := fun m hm => ht m (.part (.head _) hm)
      exact .eat_bind fun closed k _ => .ite (fun _ => .pure nofun) fun _ => .ite_test (fun _ => .pure nofun) fun _ =>
        .pure fun e he => Option.some.inj he ▸ helement
  unfold parenthesizedOrFunction
  refine .here_bind (.retry hparens fun found e _ hfound => ?_)
  cases found with
  | some element => exact .inl (.pure (hfound element rfl))
  | none => exact .inr ⟨functionTail type c.peek.span, rfl, yields_functionTail hb ho htype hc .refl hless⟩

theorem yields_namedOrFunction (hc : b.Precedes c) (hless : c.size < n + 1) :
    Yields b c (namedOrFunction type) fun e _ => Anchored b (.element e) := by
  unfold namedOrFunction
  refine .nextSpan_bind ((yields_userTypeWith hb ho htype hc hless).bind fun u e he hu => ?_)
  have hmoves := he.trans .advance
  exact .ite_test (fun _ => .next_bind (yields_functionTail hb ho htype hc hmoves (hmoves.size_le.trans_lt hless)))
    fun _ => .pure (anchored_userType hu.2)

theorem yields_typeElement (hc : b.Precedes c) (hless : c.size < n + 1) :
    Yields b c (typeElement type) fun e d => d.size < c.size ∧ Anchored b (.element e) := by
  refine Yields.consuming ?_ (consumes_typeElement (P := fun _ => True) forward_type) (hc.sound hb) trivial
  have hshape : Yields b c (elementFrom type c.kind) fun e _ => Anchored b (.element e) := by
    cases hkind : c.kind
    case leftParen => exact yields_parenthesizedOrFunction hb ho htype hc hless hkind
    case identifier => exact yields_namedOrFunction hb ho htype hc hless
    all_goals exact .failAtNext hc rfl
  refine .of_eq (congrFun (typeElement_eq type) c) .refl (.here_bind (hshape.bind fun e k _ he => ?_))
  unfold questionMarks
  exact (Yields.manyWhile (R := fun _ => True) fun _ _ _ => .next trivial).bind fun marks _ _ _ =>
    .pure (anchored_nullable he marks.length)

end Types

/-! ## Annotations -/

section Annotations

include hb ho hvalue

theorem yields_argument (hc : b.Precedes c) (hless : c.size < n) :
    Yields b c (argument value) fun a _ => Anchored b (.argument a) := by
  have hread : ∀ (name : Option Ident) (e : Cursor), c.Precedes e → (∀ i ∈ name.toList, Anchored b (.ident i)) →
      Yields b e (do
        let isSpread ← eat .star
        let value ← value
        return (⟨name, isSpread, value, ← spanFrom c.peek.span⟩ : Argument)) fun a _ => Anchored b (.argument a) := by
    intro name e he hname
    refine .eat_bind fun isSpread k hk => ?_
    have hmoves := he.trans hk
    refine (hvalue k (hc.trans hmoves) (hmoves.size_le.trans_lt hless)).bind fun v l hl hv => .spanFrom_bind (.pure ?_)
    have hstart := start_spanFrom (hc.ordered ho) (hmoves.trans hl) (hv.1.trans_le hmoves.size_le)
    refine IsBuiltAt.anchored ⟨fun _ hs => Option.some.inj hs ▸ hstart, ?_⟩ hc trivial
    exact List.forall_mem_cons.mpr ⟨hv.2, List.forall_mem_map.mpr hname⟩
  unfold argument
  refine .nextSpan_bind (.ite_test (fun _ => ?_) fun _ => .pure_bind (hread none c .refl nofun))
  refine (yields_identifier hb hc).bind fun name e he hname => .next_bind (.pure_bind ?_)
  exact hread (some name) _ (he.trans .advance) (List.forall_mem_singleton.mpr (anchored_ident hc hname.2.1))

theorem yields_valueArguments (hc : b.Precedes c) (hless : c.size < n + 1) :
    Yields b c (valueArgumentsWith value) fun as _ => ∀ a ∈ as, Anchored b (.argument a) := by
  unfold valueArgumentsWith
  refine (yields_expect hb hc (by decide)).bind fun _ d hd hmark => ?_
  have hbd := hc.trans hd
  refine (yields_commaList .rightParen fun e he => yields_argument hb ho hvalue (hbd.trans he)
    (he.size_le.trans_lt (by omega))).bind fun as e he has => ?_
  exact (yields_expect hb (hbd.trans he) (by decide)).bind fun _ _ _ _ => .pure has

include htype

/-- An annotation begins at its mark, which may be that of a whole list. -/
theorem yields_annotationBody {m : Cursor} {useSite : Option Ident} (hm : b.Precedes m) (hc : m.Precedes c)
    (hless : c.size < n + 1) (hsite : ∀ i ∈ useSite.toList, Anchored b (.ident i)) :
    Yields b c (annotationBody type value m.peek.span useSite) fun a _ => IsBuiltAt b m (.annotationUse a) := by
  unfold annotationBody
  have hbc := hm.trans hc
  refine .here_bind ((yields_userTypeWith hb ho htype hbc hless).reading.bind fun u e he hu => ?_)
  obtain ⟨hread, hsize, hsegments⟩ := hu
  refine .textSince_bind (.spanFrom_bind ?_)
  have hreference : Anchored b (.type ⟨.user u, [], Token.text (c.between e), e.spanFrom c.peek.span⟩) := by
    refine IsBuiltAt.anchored ⟨fun _ hs => ?_, ?_⟩ hbc (.inr (.inl ⟨u, _, hread, rfl⟩))
    · exact Option.some.inj hs ▸ start_spanFrom (hbc.ordered ho) he hsize
    · exact List.forall_mem_singleton.mpr (anchored_userType hsegments)
  have hend : ∀ as k, e.Precedes k → (∀ a ∈ as, Anchored b (.argument a)) → Yields b k (do
      return (⟨useSite, ⟨.user u, [], Token.text (c.between e), e.spanFrom c.peek.span⟩, as,
        ← spanFrom m.peek.span⟩ : AnnotationUse)) fun a _ => IsBuiltAt b m (.annotationUse a) := by
    intro as k hk has
    have hstart := start_spanFrom (hm.ordered ho) ((hc.trans he).trans hk)
      (hk.size_le.trans_lt (hsize.trans_le hc.size_le))
    refine .spanFrom_bind (.pure ⟨fun _ hs => Option.some.inj hs ▸ hstart, List.forall_mem_cons.mpr ⟨hreference, ?_⟩⟩)
    exact List.forall_mem_append.mpr ⟨List.forall_mem_map.mpr hsite, List.forall_mem_map.mpr has⟩
  refine .ite_test (fun _ => ?_) fun _ => .pure_bind (hend [] e .refl nofun)
  exact (yields_valueArguments hb ho hvalue (hbc.trans he) (he.size_le.trans_lt hless)).bind fun as k hk has =>
    hend as k hk has

theorem yields_annotationWith (hc : b.Precedes c) (hless : c.size < n + 1) :
    Yields b c (annotationWith type value) fun a _ => c.kind = .at ∧ IsBuiltAt b c (.annotationUse a) := by
  unfold annotationWith
  refine (yields_expect hb hc (by decide)).bind fun mark d hd hmark => ?_
  obtain ⟨rfl, hkind, hsize⟩ := hmark
  have hbd := hc.trans hd
  have hbody : ∀ useSite e, d.Precedes e → (∀ i ∈ useSite.toList, Anchored b (.ident i)) →
      Yields b e (annotationBody type value c.peek.span useSite) fun a _ =>
        c.kind = .at ∧ IsBuiltAt b c (.annotationUse a) := fun useSite e he hsite =>
    (yields_annotationBody hb ho htype hvalue hc (hd.trans he) (he.size_le.trans_lt (hsize.trans hless)) hsite).mono
      fun _ _ _ h => ⟨hkind, h⟩
  refine .ite_test (fun _ => ?_) fun _ => .pure_bind (hbody none d .refl nofun)
  refine (yields_identifier hb hbd).bind fun target e he htarget => .next_bind (.pure_bind ?_)
  exact hbody (some target) _ (he.trans .advance) (List.forall_mem_singleton.mpr (anchored_ident hbd htarget.2.1))

theorem yields_annotationUse (hc : b.Precedes c) (hless : c.size < n + 1) :
    Yields b c annotationUse fun a _ => Anchored b (.annotationUse a) :=
  (yields_annotationWith hb ho htype hvalue hc hless).reading.mono fun _ d _ ha =>
    ha.2.2.anchored hc ⟨ha.2.1, .inl ⟨d, ha.1⟩⟩

theorem yields_annotationGroup (hc : b.Precedes c) (hless : c.size < n + 1) (hat : c.kind = .at) :
    Yields b c (annotationGroup type value) fun as _ => ∀ a ∈ as, Anchored b (.annotationUse a) := by
  have hgroup : Yields b c (annotationGroup type value) fun as _ => ∀ a ∈ as, IsBuiltAt b c (.annotationUse a) := by
    unfold annotationGroup
    refine .ite_test (fun _ => .next_bind (.next_bind ?_)) fun _ => ?_
    · have hmoves := Precedes.advance.trans (Precedes.advance (c := c.advance))
      refine (Yields.manyWhile (R := fun a => IsBuiltAt b c (.annotationUse a)) fun k hk _ => yields_annotationBody hb ho
        htype hvalue hc (hmoves.trans hk) ((hmoves.trans hk).size_le.trans_lt hless) (List.forall_mem_nil _)).bind
          fun as k hk has => ?_
      exact (yields_expect hb ((hc.trans hmoves).trans hk) (by decide)).bind fun _ _ _ _ => .pure has
    · exact (yields_annotationWith hb ho htype hvalue hc hless).bind fun a _ _ ha =>
        .pure (List.forall_mem_singleton.mpr ha.2)
  exact hgroup.reading.mono fun as d _ has a ha => (has.2 a ha).anchored hc ⟨hat, .inr ⟨as, d, has.1, ha⟩⟩

theorem yields_annotations (hc : b.Precedes c) (hless : c.size < n + 1) :
    Yields b c annotations fun as _ => ∀ a ∈ as, Anchored b (.annotationUse a) := by
  unfold annotations annotationsWith
  refine (Yields.manyWhile (R := fun as => ∀ a ∈ as, Anchored b (.annotationUse a)) fun d hd hat =>
    yields_annotationGroup hb ho htype hvalue (hc.trans hd) (hd.size_le.trans_lt hless) (isAt_iff.mp hat)).bind
      fun groups _ _ hgroups => .pure fun a ha => ?_
  obtain ⟨as, has, ha⟩ := List.mem_flatten.mp ha
  exact hgroups as has a ha

/-- A type begins with its annotations, or with the mark of a suspending type, or with its shape. -/
theorem yields_typeWith (hc : b.Precedes c) (hless : c.size < n + 1) :
    Yields b c (typeWith type value) fun t _ => IsBuiltAt b c (.type t) := by
  unfold typeWith
  refine .here_bind ((Yields.manyWhile (R := fun a => Anchored b (.annotationUse a)) fun e he _ => yields_annotationUse hb ho
    htype hvalue (hc.trans he) (he.size_le.trans_lt hless)).bind fun as e he has => ?_)
  have hread : ∀ k, c.Precedes k → Yields b k (do
      let element ← typeElement type
      return (⟨element, as, ← textSince c, ← spanFrom c.peek.span⟩ : TypeRef)) fun t _ => IsBuiltAt b c (.type t) := by
    intro k hk
    refine (yields_typeElement hb ho htype (hc.trans hk) (hk.size_le.trans_lt hless)).bind fun element l hl helement => ?_
    have hstart := start_spanFrom (hc.ordered ho) (hk.trans hl) (helement.1.trans_le hk.size_le)
    refine .textSince_bind (.spanFrom_bind (.pure ⟨fun _ hs => Option.some.inj hs ▸ hstart, ?_⟩))
    exact List.forall_mem_cons.mpr ⟨helement.2, List.forall_mem_map.mpr has⟩
  exact .ite_test (fun _ => .next_bind (hread _ (he.trans .advance))) fun _ => hread e he

end Annotations

/-! ## Values -/

/-- The span from a token to a later one begins with the first of them. -/
theorem start_merge_peek {d : Cursor} (hc : c.Sound) (ho : c.Ordered) (hd : c.Precedes d) (hend : d.kind ≠ .eof) :
    (c.peek.span.merge d.peek.span).start = c.peek.span.start := by
  have hstart := start_spanFrom ho (hd.trans .advance)
    ((size_advance_lt (hd.sound hc) hend).trans_le hd.size_le)
  rwa [Cursor.spanFrom, previous_advance (hd.sound hc) hend] at hstart

/-- The type of a receiver has one segment for each name, the last one with the type arguments. -/
theorem exists_of_mem_receiverType {start : Span} {arguments : List TypeArgument} {first : Ident} {others : List Ident}
    {s : TypeSegment} (hs : s ∈ (receiverType start arguments first others).segments) :
    ∃ i ∈ first :: others, s.name = i ∧ s.span = start.merge i.span ∧ ∀ a ∈ s.arguments, a ∈ arguments := by
  rcases List.mem_append.mp hs with hbare | hlast
  · obtain ⟨i, hi, rfl⟩ := List.mem_map.mp hbare
    exact ⟨i, List.dropLast_subset _ hi, rfl, rfl, nofun⟩
  · obtain rfl := List.mem_singleton.mp hlast
    exact ⟨others.getLastD first, List.getLastD_mem_cons, rfl, rfl, fun _ ha => ha⟩

section Values

include hb ho htype

/-- A receiver is a name, a path or a type; a type is a node of its own, which is read there too. -/
theorem yields_receiver (hc : b.Precedes c) (hless : c.size < n + 1) :
    Yields b c (receiver type) fun e d => d.size < c.size ∧ Anchored b (.expr e) := by
  have hbuilt : Yields b c (receiver type) fun e d => d.size < c.size ∧
      (∀ t, e = .type t → IsBuiltAt b c (.type t)) ∧ ((∀ t, e ≠ .type t) → IsBuiltAt b c (.expr e)) := by
    have hsound := hc.sound hb
    have hident : ∀ e i, c.Precedes e → e.kind = .identifier → i.span = e.peek.span →
        Anchored b (.ident i) ∧ (c.peek.span.merge i.span).start = c.peek.span.start := fun e i he hkind hi =>
      ⟨anchored_ident (hc.trans he) hi, hi ▸ start_merge_peek hsound (hc.ordered ho) he (by rw [hkind]; nofun)⟩
    unfold receiver
    refine .nextSpan_bind ((yields_identifier hb hc).bind fun first e he hfirst => ?_)
    have hothers : Yields b e (manyWhile isAtDotIdentifier dotIdentifier) fun is _ => ∀ i ∈ is,
        Anchored b (.ident i) ∧ (c.peek.span.merge i.span).start = c.peek.span.start :=
      yields_dotIdentifiers hb (hc.trans he) fun k i hk => hident k i (he.trans hk)
    refine hothers.bind fun others k hk hothers => ?_
    have hnames : ∀ i ∈ first :: others, Anchored b (.ident i) ∧
        (c.peek.span.merge i.span).start = c.peek.span.start :=
      List.forall_mem_cons.mpr ⟨hident c first .refl hfirst.1 hfirst.2.1, hothers⟩
    have hsize : ∀ l, k.Precedes l → l.size < c.size := fun l hl => (hk.trans hl).size_le.trans_lt hfirst.2.2
    have hspan : ∀ l, k.Precedes l → (l.spanFrom c.peek.span).start = c.peek.span.start := fun l hl =>
      start_spanFrom (hc.ordered ho) ((he.trans hk).trans hl) (hsize l hl)
    refine .ite_test (fun _ => ?_) fun _ => ?_
    · refine (yields_typeArguments hb htype ((hc.trans he).trans hk) ((hsize k .refl).trans hless)).bind
        fun as l hl has => .spanFrom_bind (.pure ⟨hsize l hl, fun t ht => ?_, fun hother => absurd rfl (hother _)⟩)
      cases ht
      refine ⟨fun _ hs => Option.some.inj hs ▸ hspan l hl, List.forall_mem_singleton.mpr (anchored_userType fun s hs => ?_)⟩
      obtain ⟨i, hi, hname, hsegment, hall⟩ := exists_of_mem_receiverType hs
      exact anchored_segment hc (hsegment ▸ (hnames i hi).2) (hname ▸ (hnames i hi).1) fun a ha => has a (hall a ha)
    · cases others with
      | nil =>
        refine .pure ⟨hsize k .refl, nofun, fun _ => ⟨fun _ hs => ?_, List.forall_mem_singleton.mpr (hnames _ (.head _)).1⟩⟩
        exact Option.some.inj hs ▸ congrArg Span.start hfirst.2.1
      | cons other others =>
        have hpath : IsBuiltAt b c (.path ⟨first :: other :: others, k.spanFrom c.peek.span⟩) :=
          ⟨fun _ hs => Option.some.inj hs ▸ hspan k .refl, List.forall_mem_map.mpr fun i hi => (hnames i hi).1⟩
        exact .spanFrom_bind (.pure ⟨hsize k .refl, nofun, fun _ =>
          ⟨hpath.begins, List.forall_mem_singleton.mpr (hpath.anchored hc trivial)⟩⟩)
  refine hbuilt.reading.mono fun e d _ he => ⟨he.2.1, ?_⟩
  obtain ⟨hread, -, htype, hother⟩ := he
  by_cases hcase : ∃ t, e = .type t
  · obtain ⟨t, rfl⟩ := hcase
    have ht := htype t rfl
    exact IsBuiltAt.anchored ⟨ht.begins, List.forall_mem_singleton.mpr (ht.anchored hc (.inr (.inr ⟨d, hread⟩)))⟩ hc
      (.inr ⟨d, hread⟩)
  · exact (hother fun t ht => hcase ⟨t, ht⟩).anchored hc (.inr ⟨d, hread⟩)

theorem yields_classLiteral (hc : b.Precedes c) (hless : c.size < n + 1) :
    Yields b c (classLiteral type) fun e d => d.size < c.size ∧ IsBuiltAt b c (.expr e) := by
  unfold classLiteral
  refine .nextSpan_bind ((yields_receiver hb ho htype hc hless).bind fun e k hk he => ?_)
  refine (yields_expect hb (hc.trans hk) (by decide)).bind fun _ l hl _ => ?_
  refine (yields_expect hb ((hc.trans hk).trans hl) (by decide)).bind fun _ m hm _ => ?_
  have hsize := (hl.trans hm).size_le.trans_lt he.1
  have hstart := start_spanFrom (hc.ordered ho) ((hk.trans hl).trans hm) hsize
  exact .spanFrom_bind (.pure ⟨hsize, fun _ hs => Option.some.inj hs ▸ hstart, List.forall_mem_singleton.mpr he.2⟩)

omit htype

/-- Text ends behind the token it begins with, since there is an error if it is empty. -/
theorem yields_otherValue (hc : b.Precedes c) :
    Yields b c otherValue fun e d => d.size < c.size ∧ IsBuiltAt b c (.expr e) := by
  unfold otherValue
  refine .here_bind ((yields_skipUntil hb hc _).bind fun _ e he _ => ?_)
  have htext : e.size < c.size → Yields b e (do
      return (.other (← textSince c) (← spanFrom c.peek.span) : Expr)) fun v k =>
        k.size < c.size ∧ IsBuiltAt b c (.expr v) := fun hsize =>
    .textSince_bind (.spanFrom_bind (.pure ⟨hsize, fun _ hs =>
      Option.some.inj hs ▸ start_spanFrom (hc.ordered ho) he hsize, List.forall_mem_nil _⟩))
  have hnonempty : Yields b e (do
      if ← test (fun d => !(d.size < c.size)) then failAtNext expectedExpression
      return (.other (← textSince c) (← spanFrom c.peek.span) : Expr)) fun v k =>
        k.size < c.size ∧ IsBuiltAt b c (.expr v) :=
    .ite_test (fun _ => .failAtNext_bind (hc.trans he) rfl) fun htest => htext (by simpa using htest)
  exact .ite_test (fun _ => .failAtNext_bind (hc.trans he) rfl) fun _ => hnonempty

include hvalue

theorem yields_collection (hc : b.Precedes c) (hless : c.size < n + 1) :
    Yields b c (collection value) fun e d => d.size < c.size ∧ IsBuiltAt b c (.expr e) := by
  unfold collection
  refine (yields_expect hb hc (by decide)).bind fun mark d hd hmark => ?_
  obtain ⟨rfl, -, hsize⟩ := hmark
  have hbd := hc.trans hd
  refine (yields_commaList .rightBracket (R := fun e => Anchored b (.expr e)) fun e he =>
    (hvalue e (hbd.trans he) (he.size_le.trans_lt (by omega))).mono fun _ _ _ h => h.2).bind fun es e he hes => ?_
  refine (yields_expect hb (hbd.trans he) (by decide)).bind fun _ k hk _ => ?_
  have hend := (he.trans hk).size_le.trans_lt hsize
  have hstart := start_spanFrom (hc.ordered ho) ((hd.trans he).trans hk) hend
  exact .spanFrom_bind (.pure ⟨hend, fun _ hs => Option.some.inj hs ▸ hstart, List.forall_mem_map.mpr hes⟩)

include htype

/-- A value is tried as a collection or a class literal, and then read again as text. -/
theorem yields_valueWith (hc : b.Precedes c) (hless : c.size < n + 1) :
    Yields b c (valueWith type value) fun e d => d.size < c.size ∧ IsBuiltAt b c (.expr e) := by
  have hstructured : Yields b c (structuredValue type value) fun found d =>
      ∀ e, found = some e → d.size < c.size ∧ IsBuiltAt b c (.expr e) := by
    unfold structuredValue
    refine .ite_test (fun _ => ?_) fun _ => ?_
    · exact (yields_collection hb ho hvalue hc hless).bind fun e d _ he => .pure fun e' he' => Option.some.inj he' ▸ he
    · refine (yields_classLiteral hb ho htype hc hless).attempt.mono fun found d _ hfound e he => ?_
      rcases hfound with ⟨hnone, -⟩ | ⟨e', hsome, he'⟩
      · rw [hnone] at he
        contradiction
      · rw [hsome] at he
        exact Option.some.inj he ▸ he'
  unfold valueWith
  refine .here_bind (.retry hstructured fun found e _ hfound => ?_)
  cases found with
  | none => exact .inr ⟨otherValue, rfl, yields_otherValue hb ho hc⟩
  | some v =>
    cases hended : isAtArgumentEnd e with
    | true => exact .inl (.here_bind (by rw [hended]; exact .pure (hfound v rfl)))
    | false => exact .inr ⟨otherValue, by rw [bind_eq_match]; simp [here, hended]; rfl, yields_otherValue hb ho hc⟩

end Values

end Constructs

/-! ## The knot -/

/-- **What types and values are read from the tokens of a file is anchored in it.** -/
theorem yields_type_value (hb : b.Sound) (ho : b.Ordered) (hc : b.Precedes c) :
    (Yields b c type fun t _ => Anchored b (.type t)) ∧
      Yields b c value fun e d => d.size < c.size ∧ Anchored b (.expr e) := by
  induction hsize : c.size using Nat.strongRecOn generalizing c with
  | _ size ih =>
    subst hsize
    have htype : ∀ d, b.Precedes d → d.size < c.size → Yields b d type fun t _ => Anchored b (.type t) :=
      fun d hd hless => (ih d.size hless hd rfl).1
    have hvalue : ∀ d, b.Precedes d → d.size < c.size → Yields b d value fun e k =>
        k.size < d.size ∧ Anchored b (.expr e) := fun d hd hless => (ih d.size hless hd rfl).2
    have hsound := hc.sound hb
    have hless := Nat.lt_succ_self c.size
    constructor
    · refine (Yields.of_eq (type_eq hsound) .refl (yields_typeWith hb ho htype hvalue hc hless)).reading.mono
        fun t d _ ht => ht.2.anchored hc (.inl ⟨d, ht.1⟩)
    · refine (Yields.of_eq (value_eq hsound) .refl (yields_valueWith hb ho htype hvalue hc hless)).reading.mono
        fun e d _ he => ⟨he.2.1, he.2.2.anchored hc (.inl ⟨d, he.1⟩)⟩

end TokenParser

end ServiceCatalog
