import ServiceCatalog.Proofs.Parse.Loops

/-!
# The turns of the parser's loops

What a loop of the parser repeats has passed a token where it succeeds.  Most turns begin with the mark that the loop
looks for.  Annotations and modifiers are in one loop, in front of a member and in front of a constructor: there a
turn reads all annotations that come next, and the first of them has a token since the loop has seen its mark.

A constructor is the one construct of a head that may be given up: its modifiers are passed again as those of the next
member, but from no earlier place than where they began.
-/

namespace ServiceCatalog

namespace TokenParser

open Cursor

/-! ## Headers and heads move on -/

theorem forward_path (n : Nat) : Forward n path := by
  unfold path
  exact .bind .nextSpan fun _ => .bind .identifier fun _ => .bind (.manyWhile (forward_dotIdentifier n)) fun _ =>
    .bind (.spanFrom _) fun _ => .pure _

theorem forward_packageHeader (n : Nat) : Forward n packageHeader := by
  unfold packageHeader
  exact .bind (.expect _) fun _ => .bind (forward_path n) fun _ => .bind (.eat _) fun _ => .pure _

theorem forward_importAlias (n : Nat) : Forward n importAlias := by
  unfold importAlias
  exact .bind (.eat _) fun _ => .ite (.bind .identifier fun _ => .pure _) (.pure _)

/-- Reads an import behind its keyword. -/
def importTail (mark : Token) : TokenParser Import := do
  let start ← nextSpan
  let first ← identifier
  let others ← manyWhile (fun c => c.isAt .dot && c.secondKind != .star) dotIdentifier
  let isWildcard ← eat .dot
  if isWildcard then
    let _ ← next
  let path : Path := ⟨first :: others, ← spanFrom start⟩
  let localName ← if isWildcard then pure none else importAlias
  let _ ← eat .semicolon
  return ⟨path, isWildcard, localName, ← spanFrom mark.span⟩

theorem forward_importTail (mark : Token) (n : Nat) : Forward n (importTail mark) := by
  unfold importTail
  refine .bind .nextSpan fun start => .bind .identifier fun first => ?_
  refine .bind (.manyWhile (forward_dotIdentifier n)) fun others => .bind (.eat _) fun isWildcard => ?_
  have hend : ∀ (path : Path) (localName : Option Ident), Forward n (do
      let _ ← eat .semicolon
      return (⟨path, isWildcard, localName, ← spanFrom mark.span⟩ : Import)) :=
    fun _ _ => .bind (.eat _) fun _ => .bind (.spanFrom _) fun _ => .pure _
  cases isWildcard with
  | true => exact .bind .next fun _ => .bind (.spanFrom _) fun _ => .bind (.pure _) fun _ => hend _ _
  | false => exact .bind (.spanFrom _) fun _ => .bind (forward_importAlias n) fun _ => hend _ _

theorem forward_importHeader (n : Nat) : Forward n importHeader :=
  .bind (.expect _) fun mark => forward_importTail mark n

theorem forward_preambleItem (n : Nat) : Forward n preambleItem := by
  unfold preambleItem
  exact .ite_test (.bind (forward_annotations n) fun _ => .pure _) (.bind .next fun _ => .pure _)

theorem forward_preamble (n : Nat) : Forward n preamble := by
  unfold preamble
  exact .bind (.manyWhile (forward_preambleItem n)) fun _ => .pure _

theorem forward_classNaming (kind : ClassKind) (n : Nat) : Forward n (classNaming kind) := by
  unfold classNaming
  refine .bind (.eat _) fun _ => .bind .next fun keyword => ?_
  exact .bind (.of_precedes fun _ => .refl) fun _ => .ite (.pure _) .identifier

theorem forward_skipConstructorModifier (n : Nat) : Forward n skipConstructorModifier := by
  unfold skipConstructorModifier
  exact .ite_test (.bind (forward_annotations n) fun _ => .pure _) (.bind .next fun _ => .pure _)

theorem forward_skipConstructor (n : Nat) : Forward n skipConstructor := by
  intro c hc hless
  unfold skipConstructor
  refine AlikeAt.bind ⟨rfl, .refl⟩ fun start c' _ hok => ?_
  cases hok
  have hmodifiers : Forward n (manyWhile isAtConstructorModifier skipConstructorModifier) :=
    .manyWhile (forward_skipConstructorModifier n)
  refine (hmodifiers c hc hless).bind fun _ c₁ hmoves₁ _ => ?_
  refine ((Alike.eatWord "constructor").since hmoves₁ hc hless).bind fun hasKeyword c₂ hmoves₂ _ => ?_
  refine ((Alike.test _).since hmoves₂ hc hless).bind fun atParameters c₃ hmoves₃ _ => ?_
  cases atParameters with
  | true => exact (forward_skipGroup n).since hmoves₃ hc hless
  | false =>
    cases hasKeyword
    · exact ⟨rfl, .refl⟩
    · exact ⟨rfl, hmoves₃⟩

theorem forward_supertype (n : Nat) : Forward n supertype := by
  unfold supertype
  have hdelegation : ∀ t : TypeRef, Forward n (do
      if ← eatWord "by" then skipUntil fun c => c.isAt .comma || endsClause c
      return t) := fun t => .bind (.eatWord _) fun _ => .ite (.bind (forward_skipUntil n _) fun _ => .pure _) (.pure _)
  refine .bind (forward_type n) fun t => .ite_test ?_ (hdelegation t)
  exact .bind (forward_skipGroup n) fun _ => hdelegation t

theorem forward_supertypes (n : Nat) : Forward n supertypes := by
  unfold supertypes
  refine .bind (forward_supertype n) fun _ => .bind (.manyWhile ?_) fun _ => .pure _
  exact .bind .next fun _ => forward_supertype n

theorem forward_classTail (name : Ident) (n : Nat) : Forward n (classTail name) := by
  unfold classTail
  have hconstraints : ∀ ts : List TypeRef, Forward n (do
      if ← test (·.isAtWord "where") then skipUntil endsClause
      return (name, ts)) := fun _ => .ite_test (.bind (forward_skipUntil n _) fun _ => .pure _) (.pure _)
  refine .bind (forward_skipConstructor n) fun _ => .bind (.eat _) fun _ => ?_
  exact .ite (.bind (forward_supertypes n) fun _ => hconstraints _) (.bind (.pure _) fun _ => hconstraints _)

theorem forward_classHead (kind : ClassKind) (n : Nat) : Forward n (classHead kind) := by
  rw [classHead_eq]
  refine .bind (forward_classNaming kind n) fun name => .ite_test ?_ (forward_classTail name n)
  exact .bind (forward_skipAngles n) fun _ => forward_classTail name n

/-- What stands behind the keyword of a type alias. -/
def aliasTail (start : Span) (annotations : List AnnotationUse) (_ : Token) : TokenParser TypeAlias := do
  let name ← identifier
  if ← test (·.isAt .less) then skipAngles
  if ← test (fun c => !c.isAt .equal) then failExpecting TokenKind.equal.description
  let _ ← next
  let target ← type
  return ⟨name, annotations, target, ← spanFrom start⟩

theorem typeAlias_eq (start : Span) (annotations : List AnnotationUse) :
    typeAlias start annotations = (expect .typealias >>= aliasTail start annotations) := rfl

theorem forward_aliasTail (start : Span) (annotations : List AnnotationUse) (mark : Token) (n : Nat) :
    Forward n (aliasTail start annotations mark) := by
  unfold aliasTail
  have htarget : ∀ name : Ident, Forward n (do
      let _ ← next
      let target ← type
      return (⟨name, annotations, target, ← spanFrom start⟩ : TypeAlias)) :=
    fun _ => .bind .next fun _ => .bind (forward_type n) fun _ => .bind (.spanFrom _) fun _ => .pure _
  have hequal : ∀ name : Ident, Forward n (do
      if ← test (fun c => !c.isAt .equal) then failExpecting TokenKind.equal.description
      let _ ← next
      let target ← type
      return (⟨name, annotations, target, ← spanFrom start⟩ : TypeAlias)) :=
    fun name => .ite_test (.bind (.failAtNext _) fun _ => htarget name) (htarget name)
  refine .bind .identifier fun name => .ite_test ?_ (hequal name)
  exact .bind (forward_skipAngles n) fun _ => hequal name

theorem forward_typeAlias (start : Span) (annotations : List AnnotationUse) (n : Nat) :
    Forward n (typeAlias start annotations) :=
  .bind (.expect _) fun mark => forward_aliasTail start annotations mark n

/-! ## What a turn passes -/

theorem ne_eof_of_isAt {c : Cursor} {k : TokenKind} (h : c.isAt k = true) (hk : k ≠ .eof) : c.kind ≠ .eof := by
  rw [isAt_iff.mp h]
  exact hk

/-- An item behind a mark that the loop has seen. -/
theorem consumes_behind_mark {α : Type} {t : Cursor → Bool} {k : TokenKind} {item : TokenParser α} (hk : k ≠ .eof)
    (ht : ∀ c, t c = true → c.isAt k = true) (hitem : ∀ n, Forward n item) :
    Consumes (fun c => t c = true) (do let _ ← next; item) :=
  .bind (.next fun c h => ne_eof_of_isAt (ht c h) hk) (fun _ => .next) fun _ => hitem

theorem forward_annotationGroup (n : Nat) : Forward n (annotationGroup type value) :=
  (alike_annotationGroup (forward_type n) (forward_value n)).mono n.le_succ

theorem consumes_annotationGroup : Consumes (fun c => c.isAt .at = true) (annotationGroup type value) := by
  have hbody : ∀ n start, Forward n (annotationBody type value start none) := fun n start =>
    (strict_annotationBody (forward_type n) (forward_value n) start none).fewer
  have hsingle : ∀ n, Strict (n + 1) (annotationWith type value) (annotationWith type value) := fun n =>
    strict_annotationWith (forward_type n) (forward_value n)
  unfold annotationGroup
  refine .ite_test (.bind (.next fun c h => ne_eof_of_isAt h.1 nofun) (fun _ => .next) fun mark n => ?_) ?_
  · exact .bind .next fun _ => .bind (.manyWhile (hbody n _)) fun _ => .bind (.expect _) fun _ => .pure _
  · exact .bind (.of_strict hsingle) (fun n => (hsingle n).fewer) fun _ _ => .pure _

/-- Annotations that begin with the next token have one. -/
theorem consumes_annotations : Consumes (fun c => c.isAt .at = true) annotations :=
  .bind (.manyWhile forward_annotationGroup (fun _ h => h) consumes_annotationGroup)
    (fun n => .manyWhile (forward_annotationGroup n)) fun _ _ => .pure _

theorem consumes_preambleItem : Consumes (fun c => (c.isAt .at || isAtModifier c) = true) preambleItem := by
  unfold preambleItem
  refine .ite_test ?_ (.bind (.next fun c h => ?_) (fun _ => .next) fun _ _ => .pure _)
  · exact .bind (consumes_annotations.weaken fun c h => h.2) forward_annotations fun _ _ => .pure _
  · rw [h.2, Bool.false_or, isAtModifier] at h
    simp only [Bool.and_eq_true] at h
    exact ne_eof_of_isAt h.1.1.1.1 (by decide)

theorem consumes_skipConstructorModifier :
    Consumes (fun c => isAtConstructorModifier c = true) skipConstructorModifier := by
  unfold skipConstructorModifier
  refine .ite_test ?_ (.bind (.next fun c h => ?_) (fun _ => .next) fun _ _ => .pure _)
  · exact .bind (consumes_annotations.weaken fun c h => h.2) forward_annotations fun _ _ => .pure _
  · simp only [isAtConstructorModifier, h.2, Bool.false_and, Bool.false_or, Bool.and_eq_true] at h
    exact ne_eof_of_isAt h.1.1 (by decide)

/-- Where a mark begins a header, it is passed also if the header is an error. -/
theorem size_stop_expect_lt {α : Type} {k : TokenKind} {f : Token → TokenParser α} (hk : k ≠ .eof)
    (hf : ∀ t n, Forward n (f t)) {c : Cursor} (hc : c.Sound) (h : c.kind = k) :
    (stop ((expect k >>= f) c)).size < c.size := by
  rw [bind_eq_match, expect_eq_ok.mpr ⟨h, rfl, rfl⟩]
  exact Nat.lt_of_le_of_lt (precedes_stop (hf c.peek) hc.advance).size_le (size_advance_lt hc (h ▸ hk))

theorem size_stop_annotationUse_lt {c : Cursor} (hc : c.Sound) (h : c.kind = .at) :
    (stop (annotationUse c)).size < c.size :=
  size_stop_expect_lt (k := .at) (f := annotationTail type value) nofun
    (fun mark n => alike_annotationTail (forward_type n) (forward_value n) mark) hc h

theorem size_stop_importHeader_lt {c : Cursor} (hc : c.Sound) (h : c.kind = .import) :
    (stop (importHeader c)).size < c.size :=
  size_stop_expect_lt (k := .import) (f := importTail) nofun forward_importTail hc h

theorem size_typeAlias_lt {start : Span} {annotations : List AnnotationUse} {a : TypeAlias} {c c' : Cursor} (hc : c.Sound)
    (hok : typeAlias start annotations c = .ok a c') : c'.size < c.size := by
  rw [typeAlias_eq] at hok
  obtain ⟨mark, c₁, hmark, -⟩ := bind_eq_ok.mp hok
  have hless := size_stop_expect_lt (k := .typealias) nofun (forward_aliasTail start annotations) hc (expect_eq_ok.mp hmark).1
  rwa [hok] at hless

end TokenParser

end ServiceCatalog
