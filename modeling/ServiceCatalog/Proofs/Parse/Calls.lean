import ServiceCatalog.Proofs.Parse.Forward

/-!
# The recursion of types and values

A type is read by a parser over the parsers of the types and values inside it.  Each construct calls them behind a
token of its own, unless all that it does is to call them (`typeArgument`, `argument`, `commaList`).  So what a
construct answers where fewer than `n + 1` tokens are to come depends on what they answer where fewer than `n` are.

* `knot_alike`: a type or a value with fewer than `n` tokens to come is read in `n` calls inside each other, whatever
  the parsers are that stand for deeper calls.
-/

namespace ServiceCatalog

namespace TokenParser

open Cursor

theorem forward_dotIdentifier (n : Nat) : Forward n dotIdentifier :=
  .bind .next fun _ => .identifier

section Constructs

variable {n : Nat} {α : Type} {type type' : TokenParser TypeRef} {value value' : TokenParser Expr}

theorem alike_commaList {item item' : TokenParser α} (close : TokenKind) (hitem : Alike n item item') :
    Alike n (commaList close item) (commaList close item') := by
  unfold commaList
  refine .ite_test (.pure _) (.bind hitem fun _ => .bind (.manyWhile (.bind .next fun _ => hitem)) fun _ => ?_)
  exact .bind (.eat _) fun _ => .pure _

/-! ## Types -/

section Types

variable (htype : Alike n type type')

include htype

theorem alike_typeArgument : Alike n (typeArgument type) (typeArgument type') := by
  unfold typeArgument
  have hread : Alike n (type >>= fun t => pure (TypeArgument.type t)) (type' >>= fun t => pure (.type t)) :=
    .bind htype fun _ => .pure _
  refine .bind (.eat? _) fun star => ?_
  cases star with
  | some t => exact .pure _
  | none => exact .ite_test (.bind .next fun _ => hread) hread

theorem strict_typeArguments : Strict (n + 1) (typeArguments type) (typeArguments type') := by
  unfold typeArguments
  have hargument := alike_typeArgument htype
  refine .bind (.expect nofun) fun _ => .bind hargument fun _ => ?_
  exact .bind (.manyWhile (.bind .next fun _ => hargument)) fun _ => .bind (.expect _) fun _ => .pure _

theorem strict_typeSegment (start : Span) : Strict (n + 1) (typeSegment type start) (typeSegment type' start) := by
  unfold typeSegment
  refine .bind .identifier fun _ => .ite_test ?_ ?_
  · exact .bind (strict_typeArguments htype).fewer fun _ => .bind (.spanFrom _) fun _ => .pure _
  · exact .bind (.pure _) fun _ => .bind (.spanFrom _) fun _ => .pure _

theorem strict_userTypeWith : Strict (n + 1) (userTypeWith type) (userTypeWith type') := by
  unfold userTypeWith
  have hsegment := strict_typeSegment htype
  refine .behind .nextSpan fun start => .bind (hsegment start) fun _ => ?_
  exact .bind (.manyWhile (.bind .next fun _ => (hsegment start).fewer)) fun _ => .pure _

theorem alike_functionTail (start : Span) : Alike (n + 1) (functionTail type start) (functionTail type' start) := by
  unfold functionTail
  refine .ite_test (.bind (.failAtNext _) fun _ => ?_) ?_
  all_goals
    refine (Strict.bind (strict_skipGroup _) fun _ => .bind (.expect _) fun _ => ?_).alike
    exact .bind htype fun _ => .bind (.spanFrom _) fun _ => .pure _

/-- A type in parentheses begins behind the first of them. -/
theorem alike_parenthesized {c : Cursor} (hc : c.Sound) (hless : c.size < n + 1) (hparen : c.kind = .leftParen) :
    AlikeAt c c (parenthesized type) (parenthesized type') := by
  unfold parenthesized
  refine Alike.next_bind hc (by rw [hparen]; nofun) hless fun _ => .bind (.attempt htype) fun found => ?_
  cases found with
  | none => exact .pure _
  | some inner => exact .bind (.eat _) fun _ => .ite (.pure _) (.ite_test (.pure _) (.pure _))

theorem alike_parenthesizedOrFunction {c : Cursor} (hc : c.Sound) (hless : c.size < n + 1)
    (hparen : c.kind = .leftParen) : AlikeAt c c (parenthesizedOrFunction type) (parenthesizedOrFunction type') := by
  unfold parenthesizedOrFunction
  refine AlikeAt.bind ⟨rfl, .refl⟩ fun start c' _ hok => ?_
  cases hok
  refine (alike_parenthesized htype hc hless hparen).bind fun found c' hmoves _ => ?_
  cases found with
  | some element => exact ⟨rfl, hmoves⟩
  | none => exact alike_functionTail htype c.peek.span c hc hless

theorem alike_namedOrFunction : Alike (n + 1) (namedOrFunction type) (namedOrFunction type') := by
  unfold namedOrFunction
  refine .bind .nextSpan fun start => .bind (strict_userTypeWith htype).alike fun _ => .ite_test ?_ (.pure _)
  exact .bind .next fun _ => alike_functionTail htype start

theorem alike_typeElement : Alike (n + 1) (typeElement type) (typeElement type') := by
  unfold typeElement
  have hmarks : ∀ e : TypeElement, Forward (n + 1) (do
      let marks ← manyWhile (·.isAt .question) next
      return nullable marks.length e) := fun e => .bind (.manyWhile .next) fun _ => .pure _
  intro c hc hless
  refine AlikeAt.bind ⟨rfl, .refl⟩ fun start c' _ hok => ?_
  cases hok
  dsimp only
  generalize hkind : c.kind = kind
  split
  · next =>
    exact (alike_parenthesizedOrFunction htype hc hless hkind).bind fun e _ hmoves _ => (hmarks e).since hmoves hc hless
  · exact (alike_namedOrFunction htype |>.bind hmarks) c hc hless
  · exact (Alike.failAtNext expectedType |>.bind hmarks) c hc hless

end Types

/-! ## Annotations -/

section Annotations

variable (type value) in
/-- Reads an annotation behind its mark. -/
def annotationTail (mark : Token) : TokenParser AnnotationUse := do
  let useSite ← if ← test isAtUseSite then
      let target ← identifier
      let _ ← next
      pure (some target)
    else pure none
  annotationBody type value mark.span useSite

variable (htype : Alike n type type') (hvalue : Alike n value value')

include hvalue

theorem alike_argument : Alike n (argument value) (argument value') := by
  unfold argument
  have hread : ∀ start name, Alike n (do
      let isSpread ← eat .star
      let value ← value
      return (⟨name, isSpread, value, ← spanFrom start⟩ : Argument)) (do
      let isSpread ← eat .star
      let value ← value'
      return (⟨name, isSpread, value, ← spanFrom start⟩ : Argument)) :=
    fun _ _ => .bind (.eat _) fun _ => .bind hvalue fun _ => .bind (.spanFrom _) fun _ => .pure _
  refine .bind .nextSpan fun start => .ite_test ?_ (.bind (.pure _) fun _ => hread _ _)
  exact .bind .identifier fun _ => .bind .next fun _ => .bind (.pure _) fun _ => hread _ _

theorem strict_valueArgumentsWith : Strict (n + 1) (valueArgumentsWith value) (valueArgumentsWith value') :=
  .bind (.expect nofun) fun _ => .bind (alike_commaList _ (alike_argument hvalue)) fun _ =>
    .bind (.expect _) fun _ => .pure _

include htype

theorem strict_annotationBody (start : Span) (useSite : Option Ident) :
    Strict (n + 1) (annotationBody type value start useSite) (annotationBody type' value' start useSite) := by
  unfold annotationBody
  refine .behind .here fun name => .bind (strict_userTypeWith htype) fun user => .bind (.textSince _) fun _ => ?_
  refine .bind (.spanFrom _) fun _ => .ite_test ?_ ?_
  · exact .bind (strict_valueArgumentsWith hvalue).fewer fun _ => .bind (.spanFrom _) fun _ => .pure _
  · exact .bind (.pure _) fun _ => .bind (.spanFrom _) fun _ => .pure _

theorem alike_annotationTail (mark : Token) :
    Alike n (annotationTail type value mark) (annotationTail type' value' mark) := by
  unfold annotationTail
  have hbody := fun start useSite => (strict_annotationBody htype hvalue start useSite).fewer
  refine .ite_test ?_ (.bind (.pure _) fun _ => hbody _ _)
  exact .bind .identifier fun _ => .bind .next fun _ => .bind (.pure _) fun _ => hbody _ _

theorem strict_annotationWith : Strict (n + 1) (annotationWith type value) (annotationWith type' value') :=
  .bind (.expect nofun) (alike_annotationTail htype hvalue)

theorem alike_annotationGroup : Alike (n + 1) (annotationGroup type value) (annotationGroup type' value') := by
  unfold annotationGroup
  refine .ite_test ?_ (.bind (strict_annotationWith htype hvalue).alike fun _ => .pure _)
  refine .bind .next fun mark => .bind .next fun _ => .bind (.manyWhile ?_) fun _ => ?_
  · exact (strict_annotationBody htype hvalue _ _).alike
  exact .bind (.expect _) fun _ => .pure _

theorem alike_annotationsWith : Alike (n + 1) (annotationsWith type value) (annotationsWith type' value') := by
  unfold annotationsWith
  exact .bind (.manyWhile (alike_annotationGroup htype hvalue)) fun _ => .pure _

theorem alike_typeWith : Alike (n + 1) (typeWith type value) (typeWith type' value') := by
  unfold typeWith
  have hread : ∀ start annotations, Alike (n + 1) (do
      let element ← typeElement type
      return (⟨element, annotations, ← textSince start, ← spanFrom start.peek.span⟩ : TypeRef)) (do
      let element ← typeElement type'
      return (⟨element, annotations, ← textSince start, ← spanFrom start.peek.span⟩ : TypeRef)) :=
    fun _ _ => .bind (alike_typeElement htype) fun _ => .bind (.textSince _) fun _ => .bind (.spanFrom _) fun _ => .pure _
  refine .bind .here fun start => .bind (.manyWhile (strict_annotationWith htype hvalue).alike) fun annotations => ?_
  exact .ite_test (.bind .next fun _ => hread _ _) (hread _ _)

end Annotations

/-! ## Values -/

theorem forward_otherValue : Forward n otherValue := by
  unfold otherValue
  have htext : ∀ start : Cursor, Forward n (do
      return (.other (← textSince start) (← spanFrom start.peek.span) : Expr)) :=
    fun _ => .bind (.textSince _) fun _ => .bind (.spanFrom _) fun _ => .pure _
  have hnonempty : ∀ start : Cursor, Forward n (do
      if ← test (fun c => !(c.size < start.size)) then failAtNext expectedExpression
      return (.other (← textSince start) (← spanFrom start.peek.span) : Expr)) :=
    fun start => .ite_test (.bind (.failAtNext _) fun _ => htext start) (htext start)
  refine .bind .here fun start => .bind (forward_skipUntil n _) fun _ => ?_
  exact .ite_test (.bind (.failAtNext _) fun _ => hnonempty start) (hnonempty start)

section Values

variable (htype : Alike n type type') (hvalue : Alike n value value')

include htype in
theorem alike_receiver : Alike (n + 1) (receiver type) (receiver type') := by
  unfold receiver
  refine .bind .nextSpan fun start => .bind .identifier fun first => ?_
  refine .bind (.manyWhile (forward_dotIdentifier _)) fun others => .ite_test ?_ ?_
  · exact .bind (strict_typeArguments htype).alike fun _ => .bind (.spanFrom _) fun _ => .pure _
  · cases others with
    | nil => exact .pure _
    | cons _ _ => exact .bind (.spanFrom _) fun _ => .pure _

include htype in
theorem alike_classLiteral : Alike (n + 1) (classLiteral type) (classLiteral type') := by
  unfold classLiteral
  exact .bind .nextSpan fun _ => .bind (alike_receiver htype) fun _ => .bind (.expect _) fun _ =>
    .bind (.expect _) fun _ => .bind (.spanFrom _) fun _ => .pure _

include hvalue in
theorem strict_collection : Strict (n + 1) (collection value) (collection value') := by
  unfold collection
  exact .bind (.expect nofun) fun _ => .bind (alike_commaList _ hvalue) fun _ =>
    .bind (.expect _) fun _ => .bind (.spanFrom _) fun _ => .pure _

include htype hvalue in
theorem alike_structuredValue : Alike (n + 1) (structuredValue type value) (structuredValue type' value') := by
  unfold structuredValue
  exact .ite_test (.bind (strict_collection hvalue).alike fun _ => .pure _) (.attempt (alike_classLiteral htype))

include htype hvalue in
theorem alike_valueWith : Alike (n + 1) (valueWith type value) (valueWith type' value') := by
  intro c hc hless
  unfold valueWith
  refine AlikeAt.bind ⟨rfl, .refl⟩ fun start c' _ hok => ?_
  cases hok
  refine (alike_structuredValue htype hvalue c hc hless).bind fun structured c₁ hmoves _ => ?_
  refine (Alike.here.since hmoves hc hless).bind fun now c₂ hmoves₂ _ => ?_
  generalize isAtArgumentEnd now = ended
  cases structured with
  | none => exact forward_otherValue c hc hless
  | some e =>
    cases ended
    · exact forward_otherValue c hc hless
    · exact ⟨rfl, hmoves₂⟩

end Values

end Constructs

/-! ## The knot -/

/-- Inside a parser, the parser of a type or a value is called with fewer tokens to come, and so the guard of the
call does not matter. -/
theorem alike_below {α : Type} {start : Cursor} {p : TokenParser α} (h : Forward start.size p) :
    Alike start.size (below start fun c _ => p c) p := by
  intro c hc hless
  have hguard : below start (fun c _ => p c) c = p c := by rw [below, dif_pos hless]
  unfold AlikeAt
  rw [hguard]
  exact h c hc hless

/-- A type or a value is its construct over all types and values, if those that are inside it move on. -/
theorem alikeAt_type_value {n : Nat} (h : Forward n type ∧ Forward n value) {c : Cursor} (hc : c.Sound)
    (hless : c.size < n + 1) : AlikeAt c c type (typeWith type value) ∧ AlikeAt c c value (valueWith type value) := by
  have hsize : c.size ≤ n := Nat.le_of_lt_succ hless
  have htype := alike_below (h.1.mono hsize)
  have hvalue := alike_below (h.2.mono hsize)
  have hhere : c.size < c.size + 1 := Nat.lt_succ_self _
  constructor
  · unfold AlikeAt
    rw [type]
    exact alike_typeWith htype hvalue c hc hhere
  · unfold AlikeAt
    rw [value]
    exact alike_valueWith htype hvalue c hc hhere

/-- The parsers of types and values move on, by induction on the number of tokens to come. -/
theorem forward_type_value (n : Nat) : Forward n type ∧ Forward n value := by
  induction n with
  | zero => exact ⟨fun c _ hless => absurd hless c.size.not_lt_zero, fun c _ hless => absurd hless c.size.not_lt_zero⟩
  | succ n ih =>
    exact ⟨fun c hc hless => ⟨rfl, (alikeAt_type_value ih hc hless).1.2⟩,
      fun c hc hless => ⟨rfl, (alikeAt_type_value ih hc hless).2.2⟩⟩

theorem forward_type (n : Nat) : Forward n type := (forward_type_value n).1

theorem forward_value (n : Nat) : Forward n value := (forward_type_value n).2

/-- The knot is tied: a type is its construct over the parsers of types and values themselves. -/
theorem type_eq {c : Cursor} (hc : c.Sound) : type c = typeWith type value c :=
  (alikeAt_type_value (forward_type_value c.size) hc (Nat.lt_succ_self _)).1.1

theorem value_eq {c : Cursor} (hc : c.Sound) : value c = valueWith type value c :=
  (alikeAt_type_value (forward_type_value c.size) hc (Nat.lt_succ_self _)).2.1

theorem forward_annotationUse (n : Nat) : Forward n annotationUse :=
  (strict_annotationWith (forward_type n) (forward_value n)).fewer

theorem forward_annotations (n : Nat) : Forward n annotations :=
  (alike_annotationsWith (forward_type n) (forward_value n)).mono n.le_succ

/-- The parsers of types and of values, in a number of calls inside each other; what is deeper is left to other
parsers. -/
def knot (deeper : TokenParser TypeRef × TokenParser Expr) : Nat → TokenParser TypeRef × TokenParser Expr
  | 0 => deeper
  | n + 1 => (typeWith (knot deeper n).1 (knot deeper n).2, valueWith (knot deeper n).1 (knot deeper n).2)

/-- Types and values are read in as many calls inside each other as there are tokens to come, and one. -/
theorem knot_alike (deeper : TokenParser TypeRef × TokenParser Expr) (n : Nat) :
    Alike n (knot deeper n).1 type ∧ Alike n (knot deeper n).2 value := by
  induction n with
  | zero => exact ⟨fun c _ hless => absurd hless c.size.not_lt_zero, fun c _ hless => absurd hless c.size.not_lt_zero⟩
  | succ n ih =>
    have htype : Alike (n + 1) (knot deeper (n + 1)).1 (typeWith type value) := alike_typeWith ih.1 ih.2
    have hvalue : Alike (n + 1) (knot deeper (n + 1)).2 (valueWith type value) := alike_valueWith ih.1 ih.2
    exact ⟨htype.trans fun c hc hless => (alikeAt_type_value (forward_type_value n) hc hless).1.symm,
      hvalue.trans fun c hc hless => (alikeAt_type_value (forward_type_value n) hc hless).2.symm⟩

end TokenParser

end ServiceCatalog
