import ServiceCatalog.Proofs.Parse.BufferedLoops

/-!
# Types and values over a buffer

Each construct over the buffer answers what the token parser of the construct answers, if the parsers of the types and
values inside it do, and it only moves on.  The proofs follow the text of the parsers.  They part in three places.

* A list asks for its separator behind an item or in front of one (`mirrors_separated`, `mirrors_commaList`).
* A construct that is tried leaves the position where it failed, and the token parser has kept its cursor
  (`seeks_parenthesized`, `tries_classLiteral`); both go on from the place where it began.
* A name that is known to come next is passed as a token or read as an identifier (`MirrorsAt.next_identifier`).

The knot is tied by induction on the number of tokens to come, for types and values at once (`mirrors_type_value`).
-/

namespace ServiceCatalog

namespace BufferedParser

open TokenParser (bind_eq_match separated eatIf ne_eof_of_isAt)

variable {b : BufferedParser} {c : Cursor} {α : Type}

/-! ## Tests -/

theorem secondKind_tells (k : TokenKind) : b.Tells (·.secondKind == k) (·.secondKind == k) :=
  fun _ hc => congrArg (· == k) hc.secondKind

theorem isAtDotIdentifier_tells : b.Tells Parsing.isAtDotIdentifier TokenParser.isAtDotIdentifier := by
  intro c hc
  rw [Parsing.isAtDotIdentifier, TokenParser.isAtDotIdentifier, hc.isAt, hc.secondKind]

theorem ne_eof_of_isAtDotIdentifier (h : TokenParser.isAtDotIdentifier c = true) : c.kind ≠ .eof :=
  ne_eof_of_isAt (Bool.and_eq_true_iff.mp h).1 (by decide)

theorem isAtVariance_tells : b.Tells Parsing.isAtVariance TokenParser.isAtVariance := by
  intro c hc
  simp only [Parsing.isAtVariance, TokenParser.isAtVariance, hc.isAtWord, hc.secondKind]

theorem isAtUseSite_tells : b.Tells Parsing.isAtUseSite TokenParser.isAtUseSite := by
  intro c hc
  rw [Parsing.isAtUseSite, TokenParser.isAtUseSite, hc.isAt, hc.secondKind, hc.peek]

theorem isAtArguments_tells : b.Tells Parsing.isAtArguments TokenParser.isAtArguments := by
  intro c hc
  rw [Parsing.isAtArguments, TokenParser.isAtArguments, hc.isAt, hc.peek]

theorem isAtSuspend_tells : b.Tells Parsing.isAtSuspend TokenParser.isAtSuspend := by
  intro c hc
  rw [Parsing.isAtSuspend, TokenParser.isAtSuspend, hc.isAtWord, hc.secondKind]

/-! ## Types -/

/-- Makes a named type of its segments, which begin at a place. -/
def joined (start : Span) : List TypeSegment → TokenParser UserType
  | [] => throw (.expectedIdentifier start "nothing")
  | first :: others => return TokenParser.userTypeOf first others

section Types

variable {type' : Parsing TypeRef} {type : TokenParser TypeRef} (htype : b.Mirrors type' type)

theorem mirrors_eatDot : b.Mirrors Parsing.eatDot (eatIf TokenParser.isAtDotIdentifier) :=
  .ite_test isAtDotIdentifier_tells (.bind .next fun _ => .pure _) (.pure _)

include htype

theorem mirrors_typeArgument : b.Mirrors (Parsing.typeArgument type') (TokenParser.typeArgument type) := by
  unfold Parsing.typeArgument TokenParser.typeArgument
  have hread : b.Mirrors (type' >>= fun t => pure (TypeArgument.type t)) (type >>= fun t => pure (.type t)) :=
    .bind htype fun _ => .pure _
  refine .bind (.eat _) fun star => ?_
  cases star with
  | some t => exact .pure _
  | none => exact .ite_test isAtVariance_tells (.bind .next fun _ => hread) hread

theorem mirrors_typeArguments : b.Mirrors (Parsing.typeArguments type') (TokenParser.typeArguments type) := by
  have hlist : TokenParser.typeArguments type = do
      let _ ← TokenParser.expect .less
      let arguments ← separated (·.isAt .comma) (TokenParser.typeArgument type)
      let _ ← TokenParser.expect .greater
      return arguments := by
    simp only [separated_bind]
    rfl
  have hcomma : b.Mirrors Parsing.eatComma (eatIf (·.isAt .comma)) := TokenParser.eat_eq_eatIf .comma ▸ .eatComma
  rw [hlist]
  unfold Parsing.typeArguments
  refine .bind (.expect _) fun _ => .bind ?_ fun _ => .bind (.expect _) fun _ => .pure _
  exact mirrors_separated (fun _ h => ne_eof_of_isAt h nofun) (mirrors_typeArgument htype) hcomma

theorem mirrors_typeSegment (start : Span) :
    b.Mirrors (Parsing.typeSegment type' start) (TokenParser.typeSegment type start) := by
  unfold Parsing.typeSegment TokenParser.typeSegment
  refine .bind .identifier fun _ => .ite_test (isAt_tells _) ?_ ?_
  · exact .bind (mirrors_typeArguments htype) fun _ => .bind (.spanSince _) fun _ => .pure _
  · exact .bind (.pure _) fun _ => .bind (.spanSince _) fun _ => .pure _

theorem mirrors_userTypeWith : b.Mirrors (Parsing.userTypeWith type') (TokenParser.userTypeWith type) := by
  have hlist : TokenParser.userTypeWith type = (do
      let start ← TokenParser.nextSpan
      let segments ← separated TokenParser.isAtDotIdentifier (TokenParser.typeSegment type start)
      joined start segments) := by
    simp only [separated_bind]
    rfl
  rw [hlist]
  unfold Parsing.userTypeWith
  refine .bind .nextSpan fun start => .bind ?_ ?_
  · exact mirrors_separated (fun _ => ne_eof_of_isAtDotIdentifier) (mirrors_typeSegment htype start) mirrors_eatDot
  · rintro (_ | ⟨first, others⟩)
    · exact fun _ _ => ⟨rfl, .refl⟩
    · exact .pure _

theorem mirrors_functionTail (start : Span) :
    b.Mirrors (Parsing.functionTail type' start) (TokenParser.functionTail type start) := by
  unfold Parsing.functionTail TokenParser.functionTail
  refine .ite_test (isAt_tells _).not (.bind (.failAtNext _) fun _ => ?_) ?_
  all_goals
    refine .bind mirrors_skipBalanced fun _ => .bind (.expect _) fun _ => ?_
    exact .bind htype fun _ => .bind (.spanSince _) fun _ => .pure _

/-- A type in parentheses is found in both, or in neither of them. -/
theorem seeks_parenthesized (hc : b.Holds c) :
    b.SeeksAt c c (Parsing.parenthesized type') (TokenParser.parenthesized type) := by
  have hrest : ∀ inner : TypeRef, b.Mirrors (do
      if (← Parsing.eat .rightParen).isNone then return none
      if ← Parsing.test (·.isAt .arrow) then return none
      return some inner.element) (do
      if !(← TokenParser.eat .rightParen) then return none
      if ← TokenParser.test (·.isAt .arrow) then return none
      return some inner.element) := fun inner =>
    .eat_bind (fun _ => .ite_test (isAt_tells _) (.pure _) (.pure _)) (.pure _)
  unfold Parsing.parenthesized TokenParser.parenthesized
  refine .next_bind hc (.attempt_bind (htype.since .advance hc) (fun inner c' hmoves => ?_) rfl rfl)
  exact .of_mirrors ((hrest inner).since hmoves hc)

theorem mirrors_parenthesizedOrFunction :
    b.Mirrors (Parsing.parenthesizedOrFunction type') (TokenParser.parenthesizedOrFunction type) := by
  intro c hc
  unfold Parsing.parenthesizedOrFunction TokenParser.parenthesizedOrFunction
  refine .nextSpan_left hc (.position_here ((seeks_parenthesized htype hc).bind (fun element c' hmoves => ?_) fun i c' => ?_))
  · exact ⟨rfl, hmoves⟩
  · exact mirrors_functionTail htype c.peek.span c hc

theorem mirrors_namedOrFunction (hc : b.Holds c) :
    b.MirrorsAt c c (Parsing.namedOrFunction type' c.peek.span) (TokenParser.namedOrFunction type) := by
  have hrest : ∀ start, b.Mirrors (Parsing.namedOrFunction type' start) (do
      let user ← TokenParser.userTypeWith type
      if ← TokenParser.test (fun c => c.isAt .dot && c.secondKind == .leftParen) then
        let _ ← TokenParser.next
        TokenParser.functionTail type start
      else return .user user) := by
    intro start
    unfold Parsing.namedOrFunction
    refine .bind (mirrors_userTypeWith htype) fun user => .ite_test (fun c hc => ?_) ?_ (.pure _)
    · rw [hc.isAt, hc.secondKind]
    · exact .bind .next fun _ => mirrors_functionTail htype start
  exact hrest c.peek.span c hc

theorem mirrors_typeElement : b.Mirrors (Parsing.typeElement type') (TokenParser.typeElement type) := by
  have hmarks : ∀ e : TypeElement, b.Mirrors (do
      let marks ← Parsing.manyWhile (·.isAt .question) Parsing.next
      return TokenParser.nullable marks.length e) (do
      let marks ← TokenParser.manyWhile (·.isAt .question) TokenParser.next
      return TokenParser.nullable marks.length e) := fun e =>
    .bind (mirrors_manyWhile (isAt_tells _) fun c hc _ => Mirrors.next c hc) fun _ => .pure _
  intro c hc
  unfold Parsing.typeElement TokenParser.typeElement
  refine .nextSpan_left hc (.peekNth_here hc ?_)
  have hkind : c.peek.kind = c.kind := rfl
  dsimp only
  rw [hkind]
  have hother := (Mirrors.failAtNext TokenParser.expectedType c hc).bind fun e _ hmoves _ => (hmarks e).since hmoves hc
  cases c.kind with
  | leftParen => exact (mirrors_parenthesizedOrFunction htype c hc).bind fun e _ hmoves _ => (hmarks e).since hmoves hc
  | identifier => exact (mirrors_namedOrFunction htype hc).bind fun e _ hmoves _ => (hmarks e).since hmoves hc
  | _ => exact hother

end Types

/-! ## Annotations -/

section Annotations

variable {type' : Parsing TypeRef} {type : TokenParser TypeRef} {value' : Parsing Expr} {value : TokenParser Expr}
  (htype : b.Mirrors type' type) (hvalue : b.Mirrors value' value)

include hvalue

theorem mirrors_argument : b.Mirrors (Parsing.argument value') (TokenParser.argument value) := by
  have hread : ∀ start name, b.Mirrors (do
      let star ← Parsing.eat .star
      let value ← value'
      return (⟨name, star.isSome, value, ← Parsing.spanSince start⟩ : Argument)) (do
      let isSpread ← TokenParser.eat .star
      let value ← value
      return (⟨name, isSpread, value, ← TokenParser.spanFrom start⟩ : Argument)) := fun start name =>
    .eat_bind (fun _ => .bind hvalue fun _ => .bind (.spanSince _) fun _ => .pure _)
      (.bind hvalue fun _ => .bind (.spanSince _) fun _ => .pure _)
  intro c hc
  unfold Parsing.argument TokenParser.argument
  refine (Mirrors.nextSpan c hc).bind fun start c' _ hok => ?_
  cases hok
  refine .ite_test (fun c hc => by rw [hc.isAt, hc.secondKind]) hc (fun htest => ?_) fun _ => ?_
  · refine .next_identifier hc (Bool.and_eq_true_iff.mp htest).1 ?_
    exact (Mirrors.bind .next fun _ => .bind (.pure _) fun _ => hread _ _).since .advance hc
  · exact (Mirrors.bind (.pure _) fun _ => hread _ _) c hc

theorem mirrors_valueArgumentsWith :
    b.Mirrors (Parsing.valueArgumentsWith value') (TokenParser.valueArgumentsWith value) :=
  .bind (.expect _) fun _ => .bind (mirrors_commaList _ (mirrors_argument hvalue)) fun _ =>
    .bind (.expect _) fun _ => .pure _

include htype

theorem mirrors_annotationBody (start : Span) (useSite : Option Ident) :
    b.Mirrors (Parsing.annotationBody type' value' start useSite) (TokenParser.annotationBody type value start useSite) := by
  intro c hc
  unfold Parsing.annotationBody TokenParser.annotationBody
  refine .position_here (.nextSpan_left hc ((mirrors_userTypeWith htype c hc).bind fun user c₁ hmoves _ => ?_))
  refine (MirrorsAt.textSince hc hmoves hmoves).bind fun text c₂ hmoves₂ _ => ?_
  refine (Mirrors.bind (.spanSince _) fun span => .ite_test isAtArguments_tells ?_ ?_).since hmoves₂ hc
  · exact .bind (mirrors_valueArgumentsWith hvalue) fun _ => .bind (.spanSince _) fun _ => .pure _
  · exact .bind (.pure _) fun _ => .bind (.spanSince _) fun _ => .pure _

theorem mirrors_annotationWith : b.Mirrors (Parsing.annotationWith type' value') (TokenParser.annotationWith type value) := by
  have hbody := mirrors_annotationBody htype hvalue
  unfold Parsing.annotationWith TokenParser.annotationWith
  refine .bind (.expect _) fun mark c hc => .ite_test isAtUseSite_tells hc (fun htest => ?_) fun _ => ?_
  · refine .next_identifier hc (Bool.and_eq_true_iff.mp (Bool.and_eq_true_iff.mp htest).1).1 ?_
    exact (Mirrors.bind .next fun _ => .bind (.pure _) fun _ => hbody _ _).since .advance hc
  · exact (Mirrors.bind (.pure _) fun _ => hbody _ _) c hc

theorem mirrors_annotationGroup : b.Mirrors (Parsing.annotationGroup type' value') (TokenParser.annotationGroup type value) := by
  unfold Parsing.annotationGroup TokenParser.annotationGroup
  refine .ite_test (secondKind_tells _) ?_ (.bind (mirrors_annotationWith htype hvalue) fun _ => .pure _)
  refine .bind .next fun mark => .bind .next fun _ => .bind (mirrors_manyWhile (isAt_tells _).not fun c hc _ => ?_) fun _ => ?_
  · exact mirrors_annotationBody htype hvalue _ _ c hc
  · exact .bind (.expect _) fun _ => .pure _

theorem mirrors_annotationsWith : b.Mirrors (Parsing.annotationsWith type' value') (TokenParser.annotationsWith type value) := by
  unfold Parsing.annotationsWith TokenParser.annotationsWith
  refine .bind (mirrors_manyWhile (isAt_tells _) fun c hc _ => ?_) fun _ => .pure _
  exact mirrors_annotationGroup htype hvalue c hc

theorem mirrors_typeWith : b.Mirrors (Parsing.typeWith type' value') (TokenParser.typeWith type value) := by
  intro c hc
  have hread : ∀ annotations c₁, c.Precedes c₁ → b.MirrorsAt c c₁ (do
      let element ← Parsing.typeElement type'
      return (⟨element, annotations, ← Parsing.textSince (b.goTo c).position, ← Parsing.spanSince c.peek.span⟩ : TypeRef)) (do
      let element ← TokenParser.typeElement type
      return (⟨element, annotations, ← TokenParser.textSince c, ← TokenParser.spanFrom c.peek.span⟩ : TypeRef)) := by
    intro annotations c₁ hmoves
    refine ((mirrors_typeElement htype).since hmoves hc).bind fun element c₂ hmoves₂ _ => ?_
    refine (MirrorsAt.textSince hc hmoves₂ hmoves₂).bind fun text c₃ hmoves₃ _ => ?_
    exact (Mirrors.bind (.spanSince _) fun _ => .pure _).since hmoves₃ hc
  have hannotations : b.Mirrors (Parsing.manyWhile (·.isAt .at) (Parsing.annotationWith type' value'))
      (TokenParser.manyWhile (·.isAt .at) (TokenParser.annotationWith type value)) :=
    mirrors_manyWhile (isAt_tells _) fun c hc _ => mirrors_annotationWith htype hvalue c hc
  unfold Parsing.typeWith TokenParser.typeWith
  refine .position_here (.nextSpan_left hc ((hannotations c hc).bind fun annotations c₁ hmoves _ => ?_))
  refine .ite_test isAtSuspend_tells (hc.of_precedes hmoves) (fun _ => ?_) fun _ => hread annotations c₁ hmoves
  exact (Mirrors.next.since hmoves hc).bind fun _ c₂ hmoves₂ _ => hread annotations c₂ hmoves₂

end Annotations

/-! ## Values -/

section Values

variable {type' : Parsing TypeRef} {type : TokenParser TypeRef} {value' : Parsing Expr} {value : TokenParser Expr}
  (htype : b.Mirrors type' type) (hvalue : b.Mirrors value' value)

/-- A loop answers if its items do. -/
theorem manyWhile_eq_ok {p : Cursor → Bool} {item : TokenParser α} (hmoves : ∀ n, TokenParser.Forward n item)
    (hitem : ∀ c, c.Sound → p c = true → ∃ a c', item c = .ok a c') (hc : c.Sound) :
    ∃ as c', TokenParser.manyWhile p item c = .ok as c' := by
  fun_induction TokenParser.manyWhile p item c with
  | case1 c hpc e c' hfirst =>
    obtain ⟨a, c'', hok⟩ := hitem c hc hpc
    cases hfirst.symm.trans hok
  | case2 c hpc a c' hfirst hless e c'' hothers ih =>
    obtain ⟨as, c₁, hok⟩ := ih ((TokenParser.precedes_of_ok hmoves hc hfirst).sound hc)
    cases hothers.symm.trans hok
  | case3 c hpc a c' hfirst hless as c'' => exact ⟨_, _, rfl⟩
  | case4 => exact ⟨_, _, rfl⟩
  | case5 => exact ⟨_, _, rfl⟩

theorem isAt_advance_of_isAtDotIdentifier (hc : c.Sound) (h : TokenParser.isAtDotIdentifier c = true) :
    c.advance.isAt .identifier = true := by
  rw [Cursor.isAt, Cursor.kind_advance hc (ne_eof_of_isAtDotIdentifier h)]
  exact (Bool.and_eq_true_iff.mp h).2

/-- Names behind dots are passed without an error. -/
theorem dotIdentifiers_eq_ok (hc : c.Sound) :
    ∃ others c', TokenParser.manyWhile TokenParser.isAtDotIdentifier TokenParser.dotIdentifier c = .ok others c' := by
  refine manyWhile_eq_ok TokenParser.forward_dotIdentifier (fun c hc h => ?_) hc
  refine ⟨⟨c.advance.peek.lexeme, c.advance.peek.span⟩, c.advance.advance, ?_⟩
  show TokenParser.identifier c.advance = _
  rw [TokenParser.identifier, if_pos (isAt_advance_of_isAtDotIdentifier hc h)]

/-- Behind a dot and an identifier that have been seen, both parsers pass them. -/
theorem mirrors_dotIdentifiers : b.Mirrors (Parsing.manyWhile Parsing.isAtDotIdentifier Parsing.dotIdentifier)
    (TokenParser.manyWhile TokenParser.isAtDotIdentifier TokenParser.dotIdentifier) := by
  refine mirrors_manyWhile isAtDotIdentifier_tells fun c hc h => (Mirrors.next c hc).bind fun dot c' hmoves hok => ?_
  cases hok
  have hpass : b.MirrorsAt c c.advance (Parsing.next >>= fun t => pure (⟨t.lexeme, t.span⟩ : Ident))
      (TokenParser.identifier >>= pure) :=
    .next_identifier hc.advance (isAt_advance_of_isAtDotIdentifier hc.sound h) ⟨rfl, hmoves.trans .advance⟩
  rwa [bind_pure] at hpass

include htype in
theorem tries_receiver (hc : b.Holds c) : b.TriesAt c c (Parsing.receiver? type') (TokenParser.receiver type) := by
  unfold Parsing.receiver? TokenParser.receiver
  refine .behind (Mirrors.nextSpan c hc) ⟨_, _, rfl⟩ fun start c₁ h₁ => ?_
  refine .identifier_bind (hc.of_precedes h₁) h₁ (fun first c₂ h₂ => ?_) fun _ => rfl
  refine .behind (mirrors_dotIdentifiers.since h₂ hc) (dotIdentifiers_eq_ok (hc.of_precedes h₂).sound) fun others c₃ h₃ => ?_
  refine .behind ((Mirrors.test (isAt_tells _)).since h₃ hc) ⟨_, _, rfl⟩ fun hasArguments c₄ h₄ => ?_
  cases hasArguments with
  | true =>
    refine .bind (.attempt ((mirrors_typeArguments htype).since h₄ hc)) (fun arguments c₅ h₅ => ?_) fun _ => rfl
    exact .behind ((Mirrors.spanSince _).since h₅ hc) ⟨_, _, rfl⟩ fun _ _ h₆ => .pure _ h₆
  | false =>
    cases others with
    | nil => exact .pure _ h₄
    | cons second others => exact .behind ((Mirrors.spanSince _).since h₄ hc) ⟨_, _, rfl⟩ fun _ _ h₅ => .pure _ h₅

include htype in
theorem tries_classLiteral (hc : b.Holds c) :
    b.TriesAt c c (Parsing.classLiteral? type') (TokenParser.classLiteral type) := by
  unfold Parsing.classLiteral? TokenParser.classLiteral
  refine .behind (Mirrors.nextSpan c hc) ⟨_, _, rfl⟩ fun start c₁ h₁ => ?_
  refine .bind ((tries_receiver htype (hc.of_precedes h₁)).since h₁) (fun receiver c₂ h₂ => ?_) fun _ => rfl
  refine .bind (.eat (hc.of_precedes h₂) h₂ _) (fun _ c₃ h₃ => ?_) fun _ => rfl
  refine .bind (.eat (hc.of_precedes h₃) h₃ _) (fun _ c₄ h₄ => ?_) fun _ => rfl
  exact .behind ((Mirrors.spanSince _).since h₄ hc) ⟨_, _, rfl⟩ fun _ _ h₅ => .pure _ h₅

include hvalue in
theorem mirrors_collection : b.Mirrors (Parsing.collection value') (TokenParser.collection value) := by
  unfold Parsing.collection TokenParser.collection
  refine .bind (.expect _) fun mark => .bind (mirrors_commaList _ hvalue) fun elements => ?_
  exact .bind (.expect _) fun _ => .bind (.spanSince _) fun _ => .pure _

include htype hvalue in
theorem seeks_structuredValue (hc : b.Holds c) :
    b.SeeksAt c c (Parsing.structuredValue type' value') (TokenParser.structuredValue type value) := by
  unfold Parsing.structuredValue TokenParser.structuredValue
  refine .ite_test (isAt_tells _) hc (fun _ => ?_) fun _ => (tries_classLiteral htype hc).seeks
  exact .of_mirrors ((Mirrors.bind (mirrors_collection hvalue) fun _ => .pure _) c hc)

theorem skipUntil_of_ok {stop : Cursor → Bool} {found : List Unit} {c c' : Cursor}
    (h : TokenParser.manyWhile (fun c => !c.isAtEnd && !stop c) TokenParser.skipOne c = .ok found c') :
    TokenParser.skipUntil stop c = .ok () c' := by
  rw [TokenParser.skipUntil, h]

theorem skipUntil_of_error {stop : Cursor → Bool} {e : ParseError} {c c' : Cursor}
    (h : TokenParser.manyWhile (fun c => !c.isAtEnd && !stop c) TokenParser.skipOne c = .error e c') :
    TokenParser.skipUntil stop c = .error e c' := by
  rw [TokenParser.skipUntil, h]

/-- Reads the tokens passed since a cursor as a value, if there are any. -/
def passedValue (start : Cursor) : TokenParser Expr := do
  if ← TokenParser.test (fun c => !(c.size < start.size)) then TokenParser.failAtNext TokenParser.expectedExpression
  return .other (← TokenParser.textSince start) (← TokenParser.spanFrom start.peek.span)

theorem otherValue_eq (c : Cursor) : TokenParser.otherValue c =
    ((argumentParts >>= fun _ => pure ()) >>= fun _ => passedValue c) c := by
  rw [bind_eq_match, bind_eq_match, argumentParts]
  show (TokenParser.skipUntil _ >>= fun _ => _) c = _
  rw [bind_eq_match]
  cases hparts : TokenParser.manyWhile isInArgument TokenParser.skipOne c with
  | error e c' => rw [skipUntil_of_error hparts]; rfl
  | ok found c' =>
    rw [skipUntil_of_ok hparts]
    dsimp only [refuseBrace]
    rw [bind_eq_match, TokenParser.test]
    cases c'.isAt .rightBrace <;> rfl

/-- Reading an argument as text, from the place where it begins. -/
theorem mirrors_otherValue (hc : b.Holds c) :
    b.MirrorsAt c c (Parsing.otherValue (b.goTo c).position c.peek.span) TokenParser.otherValue := by
  have htext : ∀ c', c.Precedes c' → b.MirrorsAt c c' (do
      return (.other (← Parsing.textSince (b.goTo c).position) (← Parsing.spanSince c.peek.span) : Expr)) (do
      return (.other (← TokenParser.textSince c) (← TokenParser.spanFrom c.peek.span) : Expr)) := fun c' hmoves =>
    (MirrorsAt.textSince hc hmoves hmoves).bind fun _ c'' hmoves' _ =>
      (Mirrors.bind (.spanSince _) fun _ => .pure _).since hmoves' hc
  have hpassed : ∀ c', c.Precedes c' → b.MirrorsAt c c' (do
      if (← Parsing.position) = (b.goTo c).position then Parsing.failAtNext TokenParser.expectedExpression
      return (.other (← Parsing.textSince (b.goTo c).position) (← Parsing.spanSince c.peek.span) : Expr))
      (passedValue c) := by
    intro c' hmoves
    have hplace := hc.position_eq_iff hmoves
    unfold MirrorsAt passedValue
    rw [bind_eq_match, bind_eq_match, Parsing.position, TokenParser.test]
    by_cases hless : c'.size < c.size
    · simp only [if_neg fun h => hplace.mp h hless, hless, decide_true, Bool.not_true, Bool.false_eq_true, if_false]
      exact htext c' hmoves
    · simp only [if_pos (hplace.mpr hless), hless, decide_false, Bool.not_false, if_true]
      exact ((Mirrors.failAtNext _).since hmoves hc).bind fun _ c'' hmoves' _ => htext c'' hmoves'
  have hall : b.MirrorsAt c c (Parsing.otherValue (b.goTo c).position c.peek.span)
      ((argumentParts >>= fun _ => pure ()) >>= fun _ => passedValue c) :=
    (mirrors_skipArgument c hc).bind fun _ c' hmoves _ => hpassed c' hmoves
  unfold MirrorsAt
  rw [otherValue_eq]
  exact hall

include htype hvalue in
theorem mirrors_valueWith : b.Mirrors (Parsing.valueWith type' value') (TokenParser.valueWith type value) := by
  intro c hc
  have hother := mirrors_otherValue hc
  have hagain : ∀ c', b.MirrorsAt c c' (do
      Parsing.moveTo (b.goTo c).position
      Parsing.otherValue (b.goTo c).position c.peek.span) (do
      TokenParser.goBack c
      TokenParser.otherValue) := fun c' => (MirrorsAt.moveTo_goBack .refl).bind fun _ c'' _ hok => by cases hok; exact hother
  unfold Parsing.valueWith TokenParser.valueWith
  refine .position_here (.nextSpan_left hc ((seeks_structuredValue htype hvalue hc).bind (fun e c' hmoves => ?_) fun i c' => hother))
  unfold MirrorsAt
  rw [bind_eq_match, bind_eq_match, Parsing.test, TokenParser.here, isAtArgumentEnd_tells c' (hc.of_precedes hmoves)]
  dsimp only
  cases TokenParser.isAtArgumentEnd c' with
  | true => exact ⟨rfl, hmoves⟩
  | false => exact hagain c'

end Values

/-! ## The knot -/

/-- A call below a place is allowed in the buffer where it is at the cursor. -/
theorem mirrors_below {t' : Parsing α} {t : TokenParser α} (hc : b.Holds c)
    (h : ∀ c', b.Holds c' → c'.size < c.size → b.MirrorsAt c' c' t' t) :
    b.Mirrors (Parsing.below (b.goTo c) fun p _ => t' p) (TokenParser.below c fun c' _ => t c') := by
  intro c' hc'
  unfold MirrorsAt
  rw [Parsing.below, TokenParser.below]
  by_cases hless : c'.size < c.size
  · rw [dif_pos hless, dif_pos ((hc.remaining_lt_iff hc').mpr hless)]
    exact h c' hc' hless
  · rw [dif_neg hless, dif_neg fun h => hless ((hc.remaining_lt_iff hc').mp h), hc'.peek]
    exact ⟨rfl, .refl⟩

/-- Types and values are the same in the buffer, by induction on the number of tokens to come. -/
theorem mirrors_type_value (n : Nat) (c : Cursor) (hc : b.Holds c) (hless : c.size < n) :
    b.MirrorsAt c c Parsing.type TokenParser.type ∧ b.MirrorsAt c c Parsing.value TokenParser.value := by
  induction n generalizing c with
  | zero => exact absurd hless (Nat.not_lt_zero _)
  | succ n ih =>
    have hinside : ∀ c', b.Holds c' → c'.size < c.size →
        b.MirrorsAt c' c' Parsing.type TokenParser.type ∧ b.MirrorsAt c' c' Parsing.value TokenParser.value :=
      fun c' hc' hless' => ih c' hc' (Nat.lt_of_lt_of_le hless' (Nat.le_of_lt_succ hless))
    have htype := mirrors_below hc fun c' hc' hless' => (hinside c' hc' hless').1
    have hvalue := mirrors_below hc fun c' hc' hless' => (hinside c' hc' hless').2
    unfold MirrorsAt
    rw [Parsing.type, Parsing.value, TokenParser.type, TokenParser.value]
    exact ⟨mirrors_typeWith htype hvalue c hc, mirrors_valueWith htype hvalue c hc⟩

theorem mirrors_type : b.Mirrors Parsing.type TokenParser.type :=
  fun c hc => (mirrors_type_value (c.size + 1) c hc (Nat.lt_succ_self _)).1

theorem mirrors_value : b.Mirrors Parsing.value TokenParser.value :=
  fun c hc => (mirrors_type_value (c.size + 1) c hc (Nat.lt_succ_self _)).2

/-- The guards of the calls inside a type are no part of what it answers. -/
theorem type_eq (hc : b.Holds c) :
    Parsing.type (b.goTo c) = Parsing.typeWith Parsing.type Parsing.value (b.goTo c) := by
  rw [(mirrors_type c hc).1, TokenParser.type_eq hc.sound]
  exact (mirrors_typeWith mirrors_type mirrors_value c hc).1.symm

theorem value_eq (hc : b.Holds c) :
    Parsing.value (b.goTo c) = Parsing.valueWith Parsing.type Parsing.value (b.goTo c) := by
  rw [(mirrors_value c hc).1, TokenParser.value_eq hc.sound]
  exact (mirrors_valueWith mirrors_type mirrors_value c hc).1.symm

end BufferedParser

end ServiceCatalog
