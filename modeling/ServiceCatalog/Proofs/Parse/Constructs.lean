import ServiceCatalog.Parse.Declaration
import ServiceCatalog.Proofs.Parse.Passing

/-!
# What the constructs pass

Types and annotations pass a run of any kind to which the runs belong that they are made of.  Values, which only stand
in groups, pass a run without brackets that close nothing.  The knot of types and values is cut by the number of tokens
to come, as in their definition.

* `takes_type`, `takes_annotationUse`: what a type and an annotation pass.
* `passes_type`, `passes_annotations`: types and annotations pass no brace outside a group in round or square
  brackets, and no bracket of a group they are in.
-/

namespace ServiceCatalog

namespace TokenParser

open Cursor

theorem plain_of_isAt {c : Cursor} {k : TokenKind} (h : c.isAt k = true) (hopening : k.isOpening = false)
    (hclosing : k.isClosing = false) : c.kind.isOpening = false ∧ c.kind.isClosing = false := by
  rw [isAt_iff.mp h]
  exact ⟨hopening, hclosing⟩

theorem kind_of_isAtDotIdentifier {c : Cursor} (h : isAtDotIdentifier c = true) : c.isAt .dot = true := by
  rw [isAtDotIdentifier, Bool.and_eq_true] at h
  exact h.1

theorem kind_of_isAtVariance {c : Cursor} (h : isAtVariance c = true) : c.kind = .identifier := by
  simp only [isAtVariance, Bool.and_eq_true, Bool.or_eq_true] at h
  rcases h.1 with h | h <;> exact kind_of_isAtWord h

theorem kind_of_isAtSuspend {c : Cursor} (h : isAtSuspend c = true) : c.kind = .identifier := by
  rw [isAtSuspend, Bool.and_eq_true] at h
  exact kind_of_isAtWord h.1

/-- The next token may stand in a type if a test says that it is of a plain kind. -/
theorem single_of_isAt {S : List Token → Prop} [AdmitsTypes S] {c : Cursor} {k : TokenKind} (hk : k.isPlain = true)
    (h : c.isAt k = true) : S [c.peek] :=
  AdmitsTypes.of_kind hk c.peek (isAt_iff.mp h)

/-- Identifiers with a dot before each. -/
theorem takes_dotIdentifiers {S : List Token → Prop} [AdmitsTypes S] {P : Cursor → Prop} :
    Takes S P (manyWhile isAtDotIdentifier dotIdentifier) :=
  .manyWhile <| .bind (.next fun _ h => single_of_isAt rfl (kind_of_isAtDotIdentifier h)) fun _ =>
    .identifier (AdmitsTypes.of_kind rfl)

section Constructs

variable {loose braces : Bool} {P : Cursor → Prop} {α : Type} {type : TokenParser TypeRef}
  {value : TokenParser Expr}

/-- Items in a row with commas between them. -/
theorem passes_commaList {item : TokenParser α} (close : TokenKind)
    (hitem : Passes loose braces (fun _ => True) item) : Passes loose braces P (commaList close item) := by
  unfold commaList
  refine .ite_test (.pure _) (.bind hitem.anywhere fun _ => ?_)
  refine .bind (.manyWhile (.bind (.next fun c h => ?_) fun _ => hitem)) fun _ => .bind (.eat rfl rfl) fun _ => .pure _
  rw [Bool.and_eq_true] at h
  exact plain_of_isAt h.1 rfl rfl

/-! ## Types -/

section Types

variable {S : List Token → Prop} [AdmitsTypes S] (htype : Takes S (fun _ => True) type)

include htype

theorem takes_typeArgument : Takes S P (typeArgument type) := by
  unfold typeArgument
  refine .bind (.eat? (AdmitsTypes.of_kind rfl)) fun star => ?_
  cases star with
  | some t => exact .pure _
  | none =>
    have hread : ∀ P, Takes S P (type >>= fun t => pure (TypeArgument.type t)) :=
      fun _ => .bind htype.anywhere fun _ => .pure _
    exact .ite_test (.bind (.next fun c h => AdmitsTypes.of_kind rfl _ (kind_of_isAtVariance h.2)) fun _ => hread _)
      (hread _)

theorem takes_typeArguments : Takes S P (typeArguments type) := by
  unfold typeArguments
  refine .bind (.expect (AdmitsTypes.of_kind rfl)) fun _ => .bind (takes_typeArgument htype) fun _ => ?_
  refine .bind (.manyWhile (.bind (.next fun c h => single_of_isAt rfl h) fun _ => ?_)) fun _ => ?_
  · exact takes_typeArgument htype
  · exact .bind (.expect (AdmitsTypes.of_kind rfl)) fun _ => .pure _

theorem takes_typeSegment (start : Span) : Takes S P (typeSegment type start) := by
  unfold typeSegment
  refine .bind (.identifier (AdmitsTypes.of_kind rfl)) fun _ => .ite_test ?_ ?_
  · exact .bind (takes_typeArguments htype) fun _ => .bind (.spanFrom _) fun _ => .pure _
  · exact .bind (.pure _) fun _ => .bind (.spanFrom _) fun _ => .pure _

theorem takes_userTypeWith : Takes S P (userTypeWith type) := by
  unfold userTypeWith
  refine .bind .nextSpan fun _ => .bind (takes_typeSegment htype _) fun _ => ?_
  refine .bind (.manyWhile (.bind (.next fun c h => ?_) fun _ => takes_typeSegment htype _)) fun _ => .pure _
  exact single_of_isAt rfl (kind_of_isAtDotIdentifier h)

theorem takes_functionTail (start : Span) : Takes S P (functionTail type start) := by
  unfold functionTail
  refine .ite_test (.failAtNext_bind _) (.bind (takes_skipGroup fun c h closing inner hpair hinner => ?_) fun _ => ?_)
  · have hat : c.isAt .leftParen = true := by simpa using h.2
    exact AdmitsTypes.group hpair (fun hbrace => absurd ((isAt_iff.mp hat).symm.trans hbrace) nofun) hinner
  · exact .bind (.expect (AdmitsTypes.of_kind rfl)) fun _ => .bind htype fun _ => .bind (.spanFrom _) fun _ => .pure _

/-- A type in parentheses is a group. -/
theorem leadsBy_parenthesized {c c' : Cursor} {e : TypeElement} (hc : c.Sound) (hparen : c.kind = .leftParen)
    (h : parenthesized type c = .ok (some e) c') : c.LeadsBy S c' := by
  unfold parenthesized at h
  obtain ⟨_, c₁, hnext, h⟩ := bind_eq_ok.mp h
  cases hnext
  obtain ⟨inner, c₂, hinner, h⟩ := bind_eq_ok.mp h
  cases inner with
  | none => cases h
  | some t =>
    obtain ⟨closed, c₃, hclose, h⟩ := bind_eq_ok.mp h
    unfold eat at hclose
    split at hclose
    · next hkind =>
      cases hclose
      obtain ⟨arrow, _, harrow, h⟩ := bind_eq_ok.mp h
      cases harrow
      have hlead : c.advance.Leads false true c₂ :=
        ((Takes.attempt htype) c.advance hc.advance trivial _ c₂ hinner).mono fun _ => AdmitsTypes.run
      have hpair : c.kind.closing? = some c₂.kind := by
        rw [hparen, isAt_iff.mp hkind]
        rfl
      have hgroup : c.LeadsBy S c₂.advance := leadsBy_group hc hpair hlead fun inner hrun =>
        AdmitsTypes.group hpair (fun hbrace => absurd (hparen.symm.trans hbrace) nofun) hrun
      have hstop : c' = c₂.advance := by
        cases harrow : c₂.advance.isAt .arrow
        · simp only [harrow] at h
          cases h
          rfl
        · simp only [harrow] at h
          cases h
      rw [hstop]
      exact hgroup
    · cases hclose
      cases h

theorem takes_parenthesizedOrFunction : Takes S (fun c => c.kind = .leftParen) (parenthesizedOrFunction type) := by
  intro c hc hparen e c' hok
  unfold parenthesizedOrFunction at hok
  obtain ⟨_, _, hhere, hok⟩ := bind_eq_ok.mp hok
  cases hhere
  obtain ⟨found, c₁, hfound, hok⟩ := bind_eq_ok.mp hok
  cases found with
  | some e' =>
    cases hok
    exact leadsBy_parenthesized htype hc hparen hfound
  | none =>
    obtain ⟨_, _, hback, hok⟩ := bind_eq_ok.mp hok
    cases hback
    exact takes_functionTail htype (P := fun _ => True) _ c hc trivial e c' hok

theorem takes_namedOrFunction : Takes S P (namedOrFunction type) := by
  unfold namedOrFunction
  refine .bind .nextSpan fun start => .bind (takes_userTypeWith htype) fun user => .ite_test ?_ (.pure _)
  refine .bind (.next fun c h => ?_) fun _ => takes_functionTail htype _
  rw [Bool.and_eq_true] at h
  exact single_of_isAt rfl h.2.1

theorem takes_typeElement : Takes S P (typeElement type) := by
  unfold typeElement
  have hmarks : ∀ e : TypeElement, Takes S (fun _ => True) (do
      let marks ← manyWhile (·.isAt .question) next
      return nullable marks.length e) :=
    fun e => .bind (.manyWhile (.next fun c h => single_of_isAt rfl h)) fun _ => .pure _
  intro c hc _ e c' hok
  obtain ⟨_, _, hhere, hok⟩ := bind_eq_ok.mp hok
  cases hhere
  dsimp only at hok
  generalize hkind : c.kind = kind at hok
  split at hok
  · next =>
    exact (takes_parenthesizedOrFunction htype |>.bind hmarks) c hc hkind e c' hok
  · exact (takes_namedOrFunction (P := fun _ => True) htype |>.bind hmarks) c hc trivial e c' hok
  · exact (Takes.failAtNext_bind (P := fun _ => True) _) c hc trivial e c' hok

end Types

/-! ## Annotations -/

section Annotations

variable {S : List Token → Prop} [AdmitsTypes S] (htype : Takes S (fun _ => True) type)
  (hvalue : Passes false true (fun _ => True) value)

include hvalue

theorem passes_argument : Passes false true P (argument value) := by
  unfold argument
  have hread : ∀ start name, Passes false true (fun _ => True) (do
      let isSpread ← eat .star
      let value ← value
      return (⟨name, isSpread, value, ← spanFrom start⟩ : Argument)) :=
    fun _ _ => .bind (.eat rfl rfl) fun _ => .bind hvalue fun _ => .bind (.spanFrom _) fun _ => .pure _
  refine .bind .nextSpan fun start => .ite_test ?_ (.bind (.pure _) fun _ => hread _ _)
  refine .identifier_bind (k := .equal) (fun c h => ?_) fun _ => ?_
  · rw [Bool.and_eq_true, beq_iff_eq] at h
    exact h.2.2
  · exact .bind (.next fun c h => by rw [h]; exact ⟨rfl, rfl⟩) fun _ => .bind (.pure _) fun _ => hread _ _

theorem takes_valueArgumentsWith : Takes S P (valueArgumentsWith value) := by
  refine takes_between rfl (fun t u inner ht hu hinner => ?_) (passes_commaList _ (passes_argument hvalue)) fun _ _ =>
    .pure _
  exact AdmitsTypes.group (by rw [ht, hu]; rfl) (fun hbrace => absurd (ht.symm.trans hbrace) nofun) hinner

include htype

theorem takes_annotationBody (start : Span) (useSite : Option Ident) :
    Takes S P (annotationBody type value start useSite) := by
  unfold annotationBody
  refine .bind .here fun name => .bind (takes_userTypeWith htype) fun user => .bind (.textSince _) fun _ => ?_
  refine .bind (.spanFrom _) fun _ => .ite_test ?_ ?_
  · exact .bind (takes_valueArgumentsWith hvalue) fun _ => .bind (.spanFrom _) fun _ => .pure _
  · exact .bind (.pure _) fun _ => .bind (.spanFrom _) fun _ => .pure _

theorem takes_annotationWith : Takes S P (annotationWith type value) := by
  unfold annotationWith
  refine .bind (.expect (AdmitsTypes.of_kind rfl)) fun mark => .ite_test ?_ ?_
  · refine .identifier_bind (k := .colon) (AdmitsTypes.of_kind rfl) (fun c h => ?_) fun _ => ?_
    · simp only [isAtUseSite, Bool.and_eq_true, beq_iff_eq] at h
      exact h.2.1.2
    · exact .bind (.next fun c h => AdmitsTypes.of_kind rfl _ h) fun _ => .bind (.pure _) fun _ =>
        takes_annotationBody htype hvalue _ _
  · exact .bind (.pure _) fun _ => takes_annotationBody htype hvalue _ _

theorem takes_typeWith : Takes S P (typeWith type value) := by
  unfold typeWith
  have hread : ∀ start annotations, Takes S (fun _ => True) (do
      let element ← typeElement type
      return (⟨element, annotations, ← textSince start, ← spanFrom start.peek.span⟩ : TypeRef)) :=
    fun _ _ => .bind (takes_typeElement htype) fun _ => .bind (.textSince _) fun _ => .bind (.spanFrom _) fun _ => .pure _
  refine .bind .here fun start => .bind (.manyWhile (takes_annotationWith htype hvalue)) fun annotations => ?_
  refine .ite_test (.bind (.next fun c h => ?_) fun _ => hread _ _) (hread _ _).anywhere
  exact AdmitsTypes.of_kind rfl _ (kind_of_isAtSuspend h.2)

end Annotations

section AnnotationLists

variable (htype : Passes false false (fun _ => True) type) (hvalue : Passes false true (fun _ => True) value)

include htype hvalue

theorem passes_annotationGroup : Passes false false (fun c => c.kind = .at) (annotationGroup type value) := by
  unfold annotationGroup
  refine .ite_test ?_ (.bind (takes_annotationWith htype hvalue) fun _ => .pure _)
  refine .bind_of (Q := fun _ c => c.kind = .leftBracket) ?_ ?_ fun mark c hc hkind => ?_
  · exact .next fun c h => by rw [h.1]; exact ⟨rfl, rfl⟩
  · rintro c hc ⟨hat, hsecond⟩ _ _ hok
    cases hok
    rw [kind_advance hc (by rw [hat]; nofun)]
    exact beq_iff_eq.mp hsecond
  · have hentries : Passes false true (fun _ => True)
        (manyWhile (fun c => !c.isAt .rightBracket) (annotationBody type value mark.span none)) :=
      .manyWhile (Passes.mono id (fun _ => rfl) (takes_annotationBody htype hvalue _ _))
    have hgroup : Passes false false (fun _ => True) (do
        let _ ← expect .leftBracket
        let entries ← manyWhile (fun c => !c.isAt .rightBracket) (annotationBody type value mark.span none)
        let _ ← expect .rightBracket
        return entries) := passes_between rfl nofun hentries fun _ _ => .pure _
    intro entries c' hok
    refine hgroup c hc trivial entries c' ?_
    obtain ⟨_, _, hnext, hok⟩ := bind_eq_ok.mp hok
    exact bind_eq_ok.mpr ⟨_, _, expect_eq_ok.mpr ⟨hkind, rfl, rfl⟩, by cases hnext; exact hok⟩

theorem passes_annotationsWith : Passes false false P (annotationsWith type value) := by
  unfold annotationsWith
  refine .bind (.manyWhile ((passes_annotationGroup htype hvalue).weaken fun c h => isAt_iff.mp h)) fun _ => .pure _

end AnnotationLists

/-! ## Values -/

section Values

variable {S : List Token → Prop} [AdmitsTypes S] (htype : Takes S (fun _ => True) type)
  (hvalue : Passes false true (fun _ => True) value)

include htype in
theorem takes_receiver : Takes S P (receiver type) := by
  unfold receiver
  refine .bind .nextSpan fun start => .bind (.identifier (AdmitsTypes.of_kind rfl)) fun first => ?_
  refine .bind takes_dotIdentifiers fun others => .ite_test ?_ ?_
  · exact .bind (takes_typeArguments htype) fun _ => .bind (.spanFrom _) fun _ => .pure _
  · cases others with
    | nil => exact .pure _
    | cons _ _ => exact .bind (.spanFrom _) fun _ => .pure _

include htype in
theorem takes_classLiteral : Takes S P (classLiteral type) := by
  unfold classLiteral
  exact .bind .nextSpan fun _ => .bind (takes_receiver htype) fun _ => .bind (.expect (AdmitsTypes.of_kind rfl)) fun _ =>
    .bind (.expect (AdmitsTypes.of_kind rfl)) fun _ => .bind (.spanFrom _) fun _ => .pure _

include hvalue in
theorem passes_collection {loose braces : Bool} : Passes loose braces P (collection value) :=
  passes_between rfl nofun (passes_commaList _ hvalue) fun _ _ => .bind (.spanFrom _) fun _ => .pure _

theorem passes_otherValue : Passes false true P otherValue := by
  unfold otherValue
  refine .bind .here fun start => .bind (passes_skipUntil (fun _ _ _ => rfl) fun c h hclosing => ?_) fun _ => ?_
  · -- what closes a group ends the argument
    simp only [isAtArgumentEnd, isAt, Bool.or_eq_false_iff, beq_eq_false_iff_ne] at h
    generalize c.kind = k at *
    cases k <;> simp_all [TokenKind.isClosing]
  · refine .ite_test (.failAtNext_bind _) (.ite_test (.failAtNext_bind _) ?_)
    exact .bind (.textSince _) fun _ => .bind (.spanFrom _) fun _ => .pure _

include htype hvalue in
theorem passes_structuredValue : Passes false true P (structuredValue type value) := by
  unfold structuredValue
  refine .ite_test (.bind (passes_collection hvalue) fun _ => .pure _) (.attempt ?_)
  exact Takes.mono (fun _ => AdmitsTypes.run) (takes_classLiteral htype)

include htype hvalue in
theorem passes_valueWith : Passes false true P (valueWith type value) := by
  intro c hc _ e c' hok
  unfold valueWith at hok
  obtain ⟨_, _, hhere, hok⟩ := bind_eq_ok.mp hok
  cases hhere
  obtain ⟨structured, c₁, hstructured, hok⟩ := bind_eq_ok.mp hok
  obtain ⟨_, _, hhere, hok⟩ := bind_eq_ok.mp hok
  cases hhere
  generalize isAtArgumentEnd c₁ = ended at hok
  split at hok
  · cases hok
    exact passes_structuredValue (P := fun _ => True) htype hvalue c hc trivial _ _ hstructured
  · obtain ⟨_, _, hback, hok⟩ := bind_eq_ok.mp hok
    cases hback
    exact passes_otherValue (P := fun _ => True) c hc trivial e c' hok

end Values

end Constructs

/-! ## The knot -/

/-- A parser that may only be called with fewer tokens to come passes what it does there. -/
theorem takes_below {S : List Token → Prop} {P : Cursor → Prop} {α : Type} {start : Cursor} {p : TokenParser α}
    (h : ∀ c, c.Sound → c.size < start.size → ∀ a c', p c = .ok a c' → c.LeadsBy S c') :
    Takes S P (below start fun c _ => p c) := by
  intro c hc _ a c' hok
  unfold below at hok
  split at hok
  · next hless => exact h c hc hless a c' hok
  · contradiction

/-- Types and values pass what they may, by induction on the number of tokens to come. -/
theorem leads_type_value {S : List Token → Prop} [AdmitsTypes S] (n : Nat) :
    (∀ c, c.Sound → c.size = n → ∀ t c', type c = .ok t c' → c.LeadsBy S c') ∧
      ∀ c, c.Sound → c.size = n → ∀ e c', value c = .ok e c' → c.Leads false true c' := by
  induction n using Nat.strongRecOn with
  | ind n ih =>
    have htype : ∀ c, c.size = n → Takes S (fun _ => True) (below c fun c' _ => type c') :=
      fun c hn => takes_below fun c' hc' hless => (ih c'.size (hn ▸ hless)).1 c' hc' rfl
    have hvalue : ∀ c, c.size = n → Passes false true (fun _ => True) (below c fun c' _ => value c') :=
      fun c hn => takes_below fun c' hc' hless => (ih c'.size (hn ▸ hless)).2 c' hc' rfl
    constructor
    · intro c hc hn t c' hok
      rw [type] at hok
      exact takes_typeWith (P := fun _ => True) (htype c hn) (hvalue c hn) c hc trivial t c' hok
    · intro c hc hn e c' hok
      rw [value] at hok
      exact passes_valueWith (P := fun _ => True) (htype c hn) (hvalue c hn) c hc trivial e c' hok

section Knot

variable {S : List Token → Prop} [AdmitsTypes S] {P : Cursor → Prop}

theorem takes_type : Takes S P type := fun c hc _ t c' hok => (leads_type_value c.size).1 c hc rfl t c' hok

theorem passes_value : Passes false true P value :=
  fun c hc _ e c' hok => (leads_type_value (S := Run false false) c.size).2 c hc rfl e c' hok

theorem takes_annotationUse : Takes S P annotationUse := takes_annotationWith takes_type passes_value

theorem passes_type : Passes false false P type := takes_type

theorem passes_annotations : Passes false false P annotations := passes_annotationsWith takes_type passes_value

end Knot

end TokenParser

end ServiceCatalog
