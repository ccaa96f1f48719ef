import ServiceCatalog.Proofs.Parse.AnchoredTypes

/-!
# Headers and heads are anchored

What is kept of the headers of a file and of the heads of its classes and type aliases is anchored in the file.  What is
passed there leaves no node, but the errors in it are about tokens of the file too: a group or a list in angle brackets
that does not end is an error about a token behind it, or about the one that opens it.

Modifiers that no constructor follows are passed again as those of the next member, from the place where they began.
-/

namespace ServiceCatalog

namespace TokenParser

open Cursor

open Node (Anchored IsBuiltAt anchored_ident)

variable {b c : Cursor} (hb : b.Sound) (ho : b.Ordered)

include hb

/-! ## What is passed -/

/-- A list in angle brackets that does not end is an error about the one that opens it. -/
theorem yields_closeAngles {opening : Cursor} (hopening : b.Precedes opening) (hc : b.Precedes c) (depth : Nat) :
    Yields b c (closeAngles opening.peek.span depth) fun _ _ => True where
  reads _ _ hok := ⟨precedes_of_ok (fun n => forward_closeAngles n _ _) (hc.sound hb) hok, trivial⟩
  blames e c' herror := by
    have hmoves := precedes_stop (fun n => forward_closeAngles n opening.peek.span depth) (hc.sound hb)
    rw [herror] at hmoves
    refine ⟨hmoves, ?_⟩
    clear hmoves
    fun_induction closeAngles opening.peek.span depth c with
    | case1 => contradiction
    | case2 =>
      cases herror
      exact ⟨opening, hopening, rfl⟩
    | case3 depth c hdepth depth' hnext e c₁ hstep =>
      cases herror
      exact ((yields_skipOne hb hc).blames _ _ hstep).2
    | case4 depth c hdepth depth' hnext _ c₁ hstep hless ih =>
      exact ih (hc.trans (precedes_of_skipOne_eq hstep)) herror
    | case5 => contradiction

theorem yields_skipAngles (hc : b.Precedes c) : Yields b c skipAngles fun _ _ => True := by
  unfold skipAngles
  refine (yields_expect hb hc (by decide)).bind fun opening d hd hopening => ?_
  rw [hopening.1]
  exact yields_closeAngles hb hc (hc.trans hd) 1

/-- The errors in a member that is passed are about tokens of the file. -/
theorem isAbout_of_mem_skipMemberFrom {first : Bool} (hc : b.Precedes c) {e : ParseError}
    (he : e ∈ (skipMemberFrom first c).1) : e.IsAbout b := by
  fun_induction skipMemberFrom first c with
  | case1 | case2 | case3 | case4 => contradiction
  | case5 first c hmember c' errors stop hrest hend hbrace hsemicolon hclosing ih =>
    rcases List.mem_cons.mp he with rfl | he
    · exact ⟨c, hc, rfl⟩
    · split at hrest
      · next hless =>
        have hinner := ih hless (hc.trans .advance)
        rw [hrest] at hinner
        exact hinner he
      · cases hrest
        contradiction
  | case6 first c hmember e' c' hone =>
    obtain rfl := List.mem_singleton.mp he
    exact ((yields_skipOne hb hc).blames _ _ hone).2
  | case7 first c hmember _ c' hone hless hend hbrace hsemicolon hclosing ih =>
    exact ih (hc.trans (precedes_of_skipOne_eq hone)) he
  | case8 => contradiction

include ho

theorem yields_type (hc : b.Precedes c) : Yields b c type fun t _ => Anchored b (.type t) := (yields_type_value hb ho hc).1

theorem yields_fileAnnotation (hc : b.Precedes c) : Yields b c annotationUse fun a _ => Anchored b (.annotationUse a) :=
  yields_annotationUse hb ho (fun _ hd _ => yields_type hb ho hd) (fun _ hd _ => (yields_type_value hb ho hd).2) hc
    (Nat.lt_succ_self c.size)

theorem yields_annotationsBefore (hc : b.Precedes c) :
    Yields b c annotations fun as _ => ∀ a ∈ as, Anchored b (.annotationUse a) :=
  yields_annotations hb ho (fun _ hd _ => yields_type hb ho hd) (fun _ hd _ => (yields_type_value hb ho hd).2) hc
    (Nat.lt_succ_self c.size)

/-! ## Headers -/

theorem yields_path (hc : b.Precedes c) : Yields b c path fun p _ => Anchored b (.path p) := by
  unfold path
  refine .nextSpan_bind ((yields_identifier hb hc).bind fun first e he hfirst => ?_)
  have hothers : Yields b e (manyWhile isAtDotIdentifier dotIdentifier) fun is _ => ∀ i ∈ is, Anchored b (.ident i) :=
    yields_dotIdentifiers hb (hc.trans he) fun k i hk _ hi => anchored_ident ((hc.trans he).trans hk) hi
  refine hothers.bind fun others k hk hothers => .spanFrom_bind (.pure ?_)
  have hstart := start_spanFrom (hc.ordered ho) (he.trans hk) (hk.size_le.trans_lt hfirst.2.2)
  refine IsBuiltAt.anchored ⟨fun _ hs => Option.some.inj hs ▸ hstart, List.forall_mem_map.mpr ?_⟩ hc trivial
  exact List.forall_mem_cons.mpr ⟨anchored_ident hc hfirst.2.1, hothers⟩

theorem yields_packageHeader (hc : b.Precedes c) : Yields b c packageHeader fun p _ => Anchored b (.path p) := by
  unfold packageHeader
  refine (yields_expect hb hc (by decide)).bind fun _ d hd _ => ?_
  exact (yields_path hb ho (hc.trans hd)).bind fun p e he hp => .eat_bind fun _ _ _ => .pure hp

omit ho in
theorem yields_importAlias (hc : b.Precedes c) :
    Yields b c importAlias fun name _ => ∀ i ∈ name.toList, Anchored b (.ident i) := by
  unfold importAlias
  refine .eat_bind fun found d hd => .ite (fun _ => ?_) fun _ => .pure (List.forall_mem_nil _)
  exact (yields_identifier hb (hc.trans hd)).bind fun i _ _ hi =>
    .pure (List.forall_mem_singleton.mpr (anchored_ident (hc.trans hd) hi.2.1))

/-- An import begins with its keyword, and its path with the first name. -/
theorem yields_importHeader (hc : b.Precedes c) : Yields b c importHeader fun i _ => Anchored b (.import i) := by
  have hbuilt : Yields b c importHeader fun i _ => c.kind = .import ∧ IsBuiltAt b c (.import i) := by
    refine .bind (f := importTail) (yields_expect hb hc (by decide)) fun mark d hd hmark => ?_
    obtain ⟨rfl, hkind, hsize⟩ := hmark
    have hbd := hc.trans hd
    unfold importTail
    refine .nextSpan_bind ((yields_identifier hb hbd).bind fun first k hk hfirst => ?_)
    have hothers : Yields b k (manyWhile (fun c => c.isAt .dot && c.secondKind != .star) dotIdentifier) fun is _ =>
        ∀ i ∈ is, Anchored b (.ident i) :=
      yields_dotIdentifiers hb (hbd.trans hk) fun l i hl _ hi => anchored_ident ((hbd.trans hk).trans hl) hi
    refine hothers.bind fun others l hl hothers => .eat_bind fun isWildcard m hm => ?_
    have hnames : ∀ i ∈ first :: others, Anchored b (.ident i) :=
      List.forall_mem_cons.mpr ⟨anchored_ident hbd hfirst.2.1, hothers⟩
    have hpath : ∀ q, m.Precedes q → Anchored b (.path ⟨first :: others, q.spanFrom d.peek.span⟩) := fun q hq => by
      have hmoves := (hl.trans hm).trans hq
      have hstart := start_spanFrom (hbd.ordered ho) (hk.trans hmoves) (hmoves.size_le.trans_lt hfirst.2.2)
      exact IsBuiltAt.anchored ⟨fun _ hs => Option.some.inj hs ▸ hstart, List.forall_mem_map.mpr hnames⟩ hbd trivial
    have hend : ∀ (p : Path) (localName : Option Ident) (q : Cursor), m.Precedes q → Anchored b (.path p) →
        (∀ i ∈ localName.toList, Anchored b (.ident i)) → Yields b q (do
          let _ ← eat .semicolon
          return (⟨p, isWildcard, localName, ← spanFrom c.peek.span⟩ : Import)) fun i _ =>
            c.kind = .import ∧ IsBuiltAt b c (.import i) := by
      intro p localName q hq hp hname
      refine .eat_bind fun _ r hr => .spanFrom_bind (.pure ⟨hkind, fun _ hs => ?_, ?_⟩)
      · have hmoves := (((hk.trans hl).trans hm).trans hq).trans hr
        exact Option.some.inj hs ▸ start_spanFrom (hc.ordered ho) (hd.trans hmoves) (hmoves.size_le.trans_lt hsize)
      · exact List.forall_mem_cons.mpr ⟨hp, List.forall_mem_map.mpr hname⟩
    cases isWildcard with
    | true => exact .next_bind (.spanFrom_bind (.pure_bind (hend _ none _ .advance (hpath _ .advance) nofun)))
    | false =>
      refine .spanFrom_bind ((yields_importAlias hb (((hbd.trans hk).trans hl).trans hm)).bind fun name s hs hname => ?_)
      exact hend _ name s hs (hpath m .refl) hname
  exact hbuilt.reading.mono fun _ d _ hi => hi.2.2.anchored hc ⟨hi.2.1, d, hi.1⟩

/-! ## Heads of declarations -/

theorem yields_preamble (hc : b.Precedes c) :
    Yields b c preamble fun before _ => ∀ a ∈ before.annotations, Anchored b (.annotationUse a) := by
  have hitem : ∀ d, b.Precedes d → Yields b d preambleItem fun before _ =>
      ∀ a ∈ before.annotations, Anchored b (.annotationUse a) := fun d hd => by
    unfold preambleItem
    exact .ite_test (fun _ => (yields_annotationsBefore hb ho hd).bind fun as _ _ has => .pure has)
      fun _ => .next_bind (.pure (List.forall_mem_nil _))
  unfold preamble
  refine (Yields.manyWhile (R := fun before => ∀ a ∈ before.annotations, Anchored b (.annotationUse a)) fun d hd _ =>
    hitem d (hc.trans hd)).bind fun items _ _ hitems => .pure fun a ha => ?_
  obtain ⟨before, hbefore, ha⟩ := List.mem_flatMap.mp ha
  exact hitems before hbefore a ha

omit ho in
/-- The name of a companion object that goes without one stands at its keyword. -/
theorem yields_classNaming (hc : b.Precedes c) (kind : ClassKind) :
    Yields b c (classNaming kind) fun name _ => Anchored b (.ident name) := by
  unfold classNaming
  refine .eat_bind fun _ d hd => .next_bind (.test_bind (.ite (fun _ => .pure ?_) fun _ => ?_))
  · exact anchored_ident (hc.trans hd) rfl
  · have hname := (hc.trans hd).trans .advance
    exact (yields_identifier hb hname).mono fun i _ _ hi => anchored_ident hname hi.2.1

/-- A constructor is passed; modifiers that belong to none are given up. -/
theorem yields_skipConstructor (hc : b.Precedes c) : Yields b c skipConstructor fun _ _ => True := by
  have hmodifier : ∀ d, b.Precedes d → Yields b d skipConstructorModifier fun _ _ => True := fun d hd => by
    unfold skipConstructorModifier
    exact .ite_test (fun _ => (yields_annotationsBefore hb ho hd).bind fun _ _ _ _ => .pure trivial)
      fun _ => .next_bind (.pure trivial)
  unfold skipConstructor
  refine .here_bind (.retry (Yields.manyWhile (R := fun _ => True) fun e he _ => hmodifier e (hc.trans he))
    fun _ e he _ => ?_)
  have hbe := hc.trans he
  by_cases hword : e.isAtWord "constructor" = true
  · have heat : eatWord "constructor" e = .ok true e.advance := by rw [eatWord, if_pos hword]
    exact .inl (.step heat .advance (.ite_test (fun _ => yields_skipGroup hb (hbe.trans .advance))
      fun _ => .ite (fun hnone => absurd hnone Bool.false_ne_true) fun _ => .pure trivial))
  · have heat : eatWord "constructor" e = .ok false e := by rw [eatWord, if_neg hword]
    by_cases hparen : (e.isAt .leftParen && (false || !e.peek.newlineBefore)) = true
    · exact .inl (.step heat .refl (.ite_test (fun _ => yields_skipGroup hb hbe)
        fun hnone => absurd (hnone.symm.trans hparen) Bool.false_ne_true))
    · refine .inr ⟨pure (), ?_, .pure trivial⟩
      rw [bind_eq_match, heat]
      simp only [bind_eq_match, test, Bool.eq_false_iff.mpr hparen]
      rfl

theorem yields_supertype (hc : b.Precedes c) : Yields b c supertype fun t _ => Anchored b (.type t) := by
  have hdelegation : ∀ (t : TypeRef) (d : Cursor), b.Precedes d → Anchored b (.type t) → Yields b d (do
      if ← eatWord "by" then skipUntil fun c => c.isAt .comma || endsClause c
      return t) fun t _ => Anchored b (.type t) := fun t d hd ht =>
    .eatWord_bind fun _ e he => .ite (fun _ => (yields_skipUntil hb (hd.trans he) _).bind fun _ _ _ _ => .pure ht)
      fun _ => .pure ht
  unfold supertype
  refine (yields_type hb ho hc).bind fun t d hd ht => .ite_test (fun _ => ?_) fun _ => hdelegation t d (hc.trans hd) ht
  exact (yields_skipGroup hb (hc.trans hd)).bind fun _ e he _ => hdelegation t e ((hc.trans hd).trans he) ht

theorem yields_supertypes (hc : b.Precedes c) : Yields b c supertypes fun ts _ => ∀ t ∈ ts, Anchored b (.type t) := by
  unfold supertypes
  refine (yields_supertype hb ho hc).bind fun first d hd hfirst => ?_
  refine (Yields.manyWhile (R := fun t => Anchored b (.type t)) fun e he _ => .next_bind
    (yields_supertype hb ho (((hc.trans hd).trans he).trans .advance))).bind fun others _ _ hothers => ?_
  exact .pure (List.forall_mem_cons.mpr ⟨hfirst, hothers⟩)

theorem yields_classHead (hc : b.Precedes c) (kind : ClassKind) : Yields b c (classHead kind) fun head _ =>
    Anchored b (.ident head.1) ∧ ∀ t ∈ head.2, Anchored b (.type t) := by
  have hconstraints : ∀ (name : Ident) (ts : List TypeRef) (d : Cursor), b.Precedes d → Anchored b (.ident name) →
      (∀ t ∈ ts, Anchored b (.type t)) → Yields b d (do
        if ← test (·.isAtWord "where") then skipUntil endsClause
        return (name, ts)) fun head _ => Anchored b (.ident head.1) ∧ ∀ t ∈ head.2, Anchored b (.type t) :=
    fun name ts d hd hname hts => .ite_test
      (fun _ => (yields_skipUntil hb hd _).bind fun _ _ _ _ => .pure ⟨hname, hts⟩) fun _ => .pure ⟨hname, hts⟩
  have htail : ∀ (name : Ident) (d : Cursor), b.Precedes d → Anchored b (.ident name) →
      Yields b d (classTail name) fun head _ => Anchored b (.ident head.1) ∧ ∀ t ∈ head.2, Anchored b (.type t) := by
    intro name d hd hname
    unfold classTail
    refine (yields_skipConstructor hb ho hd).bind fun _ e he _ => .eat_bind fun hasSupertypes k hk => ?_
    have hbk := (hd.trans he).trans hk
    refine .ite (fun _ => ?_) fun _ => .pure_bind (hconstraints name [] k hbk hname nofun)
    exact (yields_supertypes hb ho hbk).bind fun ts l hl hts => hconstraints name ts l (hbk.trans hl) hname hts
  rw [classHead_eq]
  refine (yields_classNaming hb hc kind).bind fun name d hd hname => ?_
  refine .ite_test (fun _ => ?_) fun _ => htail name d (hc.trans hd) hname
  exact (yields_skipAngles hb (hc.trans hd)).bind fun _ e he _ => htail name e ((hc.trans hd).trans he) hname

/-- The name and the target of a type alias. -/
theorem yields_typeAlias (hc : b.Precedes c) (start : Span) (annotations : List AnnotationUse) :
    Yields b c (typeAlias start annotations) fun a _ =>
      a.annotations = annotations ∧ Anchored b (.ident a.name) ∧ Anchored b (.type a.target) := by
  rw [typeAlias_eq]
  refine (yields_expect hb hc (by decide)).bind fun _ d hd _ => ?_
  unfold aliasTail
  refine (yields_identifier hb (hc.trans hd)).bind fun name e he hname => ?_
  have hbe := (hc.trans hd).trans he
  have htarget : ∀ k, e.Precedes k → Yields b k (do
      let _ ← next
      let target ← type
      return (⟨name, annotations, target, ← spanFrom start⟩ : TypeAlias)) fun a _ =>
        a.annotations = annotations ∧ Anchored b (.ident a.name) ∧ Anchored b (.type a.target) := fun k hk =>
    .next_bind ((yields_type hb ho ((hbe.trans hk).trans .advance)).bind fun target m _ ht =>
      .spanFrom_bind (.pure ⟨rfl, anchored_ident (hc.trans hd) hname.2.1, ht⟩))
  have hequal : ∀ k, e.Precedes k → Yields b k (do
      if ← test (fun c => !c.isAt .equal) then failExpecting TokenKind.equal.description
      let _ ← next
      let target ← type
      return (⟨name, annotations, target, ← spanFrom start⟩ : TypeAlias)) fun a _ =>
        a.annotations = annotations ∧ Anchored b (.ident a.name) ∧ Anchored b (.type a.target) := fun k hk =>
    .ite_test (fun _ => .failAtNext_bind (hbe.trans hk) rfl) fun _ => htarget k hk
  refine .ite_test (fun _ => ?_) fun _ => hequal e .refl
  exact (yields_skipAngles hb hbe).bind fun _ k hk _ => hequal k hk

end TokenParser

end ServiceCatalog
