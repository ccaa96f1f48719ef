import Mathlib.Algebra.GroupWithZero.Nat
import Mathlib.Algebra.Order.BigOperators.Group.List
import Mathlib.Algebra.Order.Group.Nat
import ServiceCatalog.Proofs.Parse.TypeText

/-!
# Variance marks and the written form of a type

A type argument may have a variance mark in front of it, which the tree does not keep.  So a named type has two written
forms: the text of its tokens, and what `UserType.render` makes of the tree.  `NamedAt` says what is read at a place,
the marks included, and both forms are computed from it.

* `Cursor.Written`: what is passed between two places, as text that stands close to the marks around it.
* `ArgumentsAt`, `SegmentAt`, `NamedAt`: the type arguments with their marks, the segments and the named type at a place.
* `written_named`: the text of the tokens is the written form with all marks.
* `render_eq_text_iff`: the tree shows a type as it is written exactly if no type argument of its segments is marked.
-/

namespace ServiceCatalog

/-! ## Texts of runs -/

namespace Token

/-- Whether a space stands behind every token of a kind. -/
def isSpaced : TokenKind → Bool
  | .comma | .arrow | .equal => true
  | _ => false

/-- The kind of the last token of a run, or else the kind in front of the run. -/
def kindBehind (before : Option TokenKind) (ts : List Token) : Option TokenKind := (ts.getLast?.map Token.kind).or before

theorem textAfter_append (before : Option TokenKind) (ts us : List Token) :
    textAfter before (ts ++ us) = textAfter before ts ++ textAfter (kindBehind before ts) us := by
  induction ts generalizing before with
  | nil => simp [textAfter, kindBehind]
  | cons t ts ih =>
    have hbehind : kindBehind (some t.kind) ts = kindBehind before (t :: ts) := by
      cases ts with
      | nil => rfl
      | cons u ts =>
        rw [kindBehind, kindBehind, List.getLast?_cons_cons, List.getLast?_eq_some_getLast (List.cons_ne_nil u ts)]
        rfl
    rw [List.cons_append, textAfter, textAfter, ih, hbehind, ← String.append_assoc]

/-- The text of a run behind a token is the text of the run, with a space if there must be one. -/
theorem textAfter_cons (before : TokenKind) (t : Token) (ts : List Token) :
    textAfter (some before) (t :: ts) = (if needsSpace before t.kind then " " else "") ++ text (t :: ts) := by
  simp [textAfter, text, String.append_assoc]

/-- No space stands in front of a mark, unless behind a comma, an arrow or an equals sign. -/
theorem needsSpace_of_mark {before after : TokenKind} (hbefore : isSpaced before = false)
    (hafter : after ∈ [TokenKind.less, .greater, .comma, .dot]) : needsSpace before after = false := by
  simp only [List.mem_cons, List.not_mem_nil, or_false] at hafter
  cases before <;> first | contradiction | (rcases hafter with rfl | rfl | rfl | rfl <;> rfl)

/-- No space stands behind an opening angle bracket or a dot, unless an arrow or an equals sign follows. -/
theorem needsSpace_behind_mark {before after : TokenKind} (hbefore : before ∈ [TokenKind.less, .dot])
    (hafter : after ≠ .arrow ∧ after ≠ .equal) : needsSpace before after = false := by
  simp only [List.mem_cons, List.not_mem_nil, or_false] at hbefore
  obtain ⟨harrow, hequal⟩ := hafter
  rcases hbefore with rfl | rfl <;> cases after <;> first | rfl | contradiction

end Token

/-! ## What is passed between two places -/

namespace Cursor

variable {c d e : Cursor}

theorem between_skip (c : Cursor) (n : Nat) : c.between (c.skip n) = c.rest.take n := by
  rw [between, size_skip, size]
  by_cases hn : n ≤ c.rest.length
  · rw [show c.rest.length - (c.rest.length - n) = n by omega]
  · rw [show c.rest.length - (c.rest.length - n) = c.rest.length by omega, List.take_length,
      List.take_of_length_le (by omega)]

/-- The tokens between two places are those up to a third one between them, and those from there on. -/
theorem between_append (h : c.Precedes d) (h' : d.Precedes e) : c.between e = c.between d ++ d.between e := by
  obtain ⟨m, rfl⟩ := h
  obtain ⟨n, rfl⟩ := h'
  rw [between_skip, between_skip, skip_skip, between_skip, List.take_add]
  rfl

theorem between_advance (hc : c.Sound) (hend : c.kind ≠ .eof) : c.between c.advance = [c.peek] := by
  obtain ⟨t, ts, hrest, hpeek⟩ := hc.exists_cons hend
  rw [advance_eq_skip, between_skip, hrest, hpeek]
  rfl

/-- The tokens from a place on begin with the next one. -/
theorem between_cons (hc : c.Sound) (hend : c.kind ≠ .eof) (h : c.advance.Precedes e) :
    c.between e = c.peek :: c.advance.between e := by
  rw [between_append .advance h, between_advance hc hend, List.singleton_append]

/-- The tokens that were passed begin with the next one. -/
theorem exists_between_cons (hc : c.Sound) (h : c.Precedes d) (hsize : d.size < c.size) :
    ∃ ts, c.between d = c.peek :: ts := by
  obtain ⟨_ | n, rfl⟩ := h
  · exact absurd hsize (Nat.lt_irrefl _)
  · have hend : c.kind ≠ .eof := fun hkind => by
      rw [size, size, hc.rest_eq_nil hkind] at hsize
      exact absurd hsize (Nat.not_lt_zero _)
    obtain ⟨t, ts, hrest, hpeek⟩ := hc.exists_cons hend
    exact ⟨ts.take n, by rw [between_skip, hrest, hpeek, List.take_succ_cons]⟩

/-- The token that was passed last is the last one between two places. -/
theorem getLast?_between (h : c.Precedes d) (hsize : d.size < c.size) : (c.between d).getLast? = d.previous := by
  obtain ⟨n, rfl⟩ := h
  rw [size_skip, size] at hsize
  have hne : c.rest.take n ≠ [] := by
    rw [Ne, List.take_eq_nil_iff, ← List.length_eq_zero_iff]
    omega
  rw [between_skip, skip, List.getLast?_eq_some_getLast hne, Option.some_or]

theorem InSource.precedes (hc : c.InSource) (h : c.Precedes d) : d.InSource := by
  obtain ⟨source, m, rfl⟩ := hc
  obtain ⟨n, rfl⟩ := h
  exact ⟨source, m + n, skip_skip _ m n⟩

/-- The next token of a source file is spelled as its kind says, if it is a mark. -/
theorem InSource.lexeme (hc : c.InSource) {k : TokenKind} {chars : List Char} (hkind : c.kind = k)
    (hmark : k.mark? = some chars) : c.peek.lexeme = String.ofList chars := by
  have hend : c.kind ≠ .eof := by
    rw [hkind]
    rintro rfl
    contradiction
  obtain ⟨t, ts, hrest, hpeek⟩ := hc.sound.exists_cons hend
  refine hc.spellsMarks c.peek ?_ chars (by rw [show c.peek.kind = k from hkind, hmark])
  rw [hrest, hpeek]
  exact List.mem_cons_self ..

/-- Whether a text is that of the tokens between two places, and marks may stand close to it on both sides. -/
structure Written (c d : Cursor) (text : String) : Prop where
  moves : c.Precedes d
  passes : d.size < c.size
  text_eq : Token.text (c.between d) = text
  first : c.kind ≠ .arrow ∧ c.kind ≠ .equal
  last : ∃ t, d.previous = some t ∧ Token.isSpaced t.kind = false

namespace Written

variable {text text' : String}

/-- A text behind a token stands close to it, or there is a space between. -/
theorem textAfter (h : c.Written d text) (hc : c.Sound) (before : TokenKind) :
    Token.textAfter (some before) (c.between d) =
      (if Token.needsSpace before c.kind then " " else "") ++ text := by
  obtain ⟨ts, hts⟩ := exists_between_cons hc h.moves h.passes
  rw [← h.text_eq, hts, Token.textAfter_cons]
  rfl

/-- A mark stands close behind a text. -/
theorem mark (h : c.Written d text) (hc : c.InSource) {k : TokenKind} {chars : List Char} (hkind : d.kind = k)
    (hmark : k.mark? = some chars) (hk : k ∈ [TokenKind.less, .greater, .comma, .dot]) (he : d.advance.Precedes e) :
    Token.text (c.between e) = text ++ String.ofList chars ++ Token.textAfter (some k) (d.advance.between e) := by
  have hd : d.InSource := hc.precedes h.moves
  have hend : d.kind ≠ .eof := by
    rw [hkind]
    rintro rfl
    contradiction
  obtain ⟨t, hprevious, hspaced⟩ := h.last
  have hbehind : Token.kindBehind none (c.between d) = some t.kind := by
    rw [Token.kindBehind, getLast?_between h.moves h.passes, hprevious]
    rfl
  rw [between_append h.moves (Precedes.advance.trans he), Token.text, Token.textAfter_append, hbehind,
    between_cons hd.sound hend he, Token.textAfter, Option.any_some, show d.peek.kind = k from hkind,
    Token.needsSpace_of_mark hspaced hk, hd.lexeme hkind hmark, show Token.textAfter none (c.between d) = text from h.text_eq]
  simp [String.append_assoc]

/-- A text behind a mark behind another text. -/
theorem join (h : c.Written d text) (hc : c.InSource) {k : TokenKind} {chars : List Char} (hkind : d.kind = k)
    (hmark : k.mark? = some chars) (hk : k ∈ [TokenKind.less, .greater, .comma, .dot])
    (h' : d.advance.Written e text') :
    c.Written e (text ++ String.ofList chars ++ ((if Token.needsSpace k d.advance.kind then " " else "") ++ text')) where
  moves := h.moves.trans (Precedes.advance.trans h'.moves)
  passes := h'.passes.trans_le (Precedes.advance.size_le.trans h.passes.le)
  text_eq := by rw [h.mark hc hkind hmark hk h'.moves, h'.textAfter (hc.precedes h.moves).sound.advance]
  first := h.first
  last := h'.last

/-- A closing mark behind a text. -/
theorem close (h : c.Written d text) (hc : c.InSource) (hkind : d.kind = .greater) : c.Written d.advance (text ++ ">") where
  moves := h.moves.trans .advance
  passes := Precedes.advance.size_le.trans_lt h.passes
  text_eq := by
    rw [h.mark hc hkind rfl (by decide) .refl, between, Nat.sub_self, List.take_zero, Token.textAfter]
    exact String.append_empty
  first := h.first
  last := by
    have hend : d.kind ≠ .eof := by
      rw [hkind]
      decide
    refine ⟨d.peek, previous_advance (hc.precedes h.moves).sound hend, ?_⟩
    rw [show d.peek.kind = .greater from hkind]
    rfl

/-- A token that is a text. -/
theorem single (hc : c.Sound) {k : TokenKind} (hkind : c.kind = k) (hk : k = .identifier ∨ k = .star) :
    c.Written c.advance c.peek.lexeme := by
  have hend : c.kind ≠ .eof := by
    rw [hkind]
    rcases hk with rfl | rfl <;> decide
  refine ⟨.advance, size_advance_lt hc hend, ?_, ?_, c.peek, previous_advance hc hend, ?_⟩
  · rw [between_advance hc hend]
    simp [Token.text, Token.textAfter]
  · rw [hkind]
    rcases hk with rfl | rfl <;> decide
  · rw [show c.peek.kind = k from hkind]
    rcases hk with rfl | rfl <;> rfl

end Written

end Cursor

namespace TokenParser

open Cursor

/-! ## The ends of types -/

/-- The kinds of the tokens that types end with. -/
def typeEnds : List TokenKind := [.identifier, .greater, .rightParen, .question]

/-- Whether the token passed last may be the last one of a type. -/
def EndsType (c : Cursor) : Prop := ∃ t, c.previous = some t ∧ t.kind ∈ typeEnds

variable {c c' : Cursor}

theorem endsType_advance (hc : c.Sound) (hkind : c.kind ∈ typeEnds) : EndsType c.advance := by
  have hend : c.kind ≠ .eof := fun h => by
    rw [h] at hkind
    contradiction
  exact ⟨c.peek, previous_advance hc hend, hkind⟩

/-- A repetition ends as its last turn does, or where it began. -/
theorem endsType_manyWhile {α : Type} {t : Cursor → Bool} {item : TokenParser α} {as : List α}
    (hitem : ∀ {d d' : Cursor} {a : α}, d.Sound → t d = true → item d = .ok a d' → d'.Sound ∧ EndsType d')
    (hc : c.Sound) (hends : EndsType c) (h : manyWhile t item c = .ok as c') : EndsType c' := by
  fun_induction manyWhile t item c generalizing as c' with
  | case1 d ht e d' herror => contradiction
  | case2 d ht a d₁ hfirst hsize e d₂ herror => contradiction
  | case3 d ht a d₁ hfirst hsize as' d₂ hothers ih =>
    cases h
    obtain ⟨hd₁, hends₁⟩ := hitem hc ht hfirst
    exact ih hd₁ hends₁ hothers
  | case4 d ht a d₁ hfirst hsize =>
    cases h
    exact (hitem hc ht hfirst).2
  | case5 d ht =>
    cases h
    exact hends

section Construct

variable {tp : TokenParser TypeRef} (hmoves : ∀ n, Forward n tp)
  (htype : ∀ {c c' : Cursor} {t : TypeRef}, c.Sound → tp c = .ok t c' → EndsType c')

include hmoves

theorem endsType_typeArguments {as : List TypeArgument} (hc : c.Sound) (h : typeArguments tp c = .ok as c') :
    EndsType c' := by
  unfold typeArguments at h
  obtain ⟨_, c₁, hless, h⟩ := bind_eq_ok.mp h
  obtain ⟨first, c₂, hfirst, h⟩ := bind_eq_ok.mp h
  obtain ⟨others, c₃, hothers, h⟩ := bind_eq_ok.mp h
  obtain ⟨_, c₄, hgreater, h⟩ := bind_eq_ok.mp h
  cases h
  have hc₁ : c₁.Sound := (precedes_of_ok (fun _ => .expect _) hc hless).sound hc
  have hargument : ∀ n, Forward n (typeArgument tp) := fun n => alike_typeArgument (hmoves n)
  have hc₂ : c₂.Sound := (precedes_of_ok hargument hc₁ hfirst).sound hc₁
  have hc₃ : c₃.Sound :=
    (precedes_of_ok (fun n => .manyWhile (.bind .next fun _ => hargument n)) hc₂ hothers).sound hc₂
  obtain ⟨hkind, -, rfl⟩ := expect_eq_ok.mp hgreater
  exact endsType_advance hc₃ (by rw [hkind]; decide)

theorem endsType_typeSegment {start : Span} {s : TypeSegment} (hc : c.Sound) (h : typeSegment tp start c = .ok s c') :
    EndsType c' := by
  unfold typeSegment at h
  obtain ⟨name, c₁, hname, h⟩ := bind_eq_ok.mp h
  obtain ⟨hkind, -, rfl⟩ := identifier_eq_ok.mp hname
  obtain ⟨hasArguments, _, htest, h⟩ := bind_eq_ok.mp h
  cases htest
  split at h
  · obtain ⟨arguments, c₂, harguments, h⟩ := bind_eq_ok.mp h
    obtain ⟨_, _, hspan, h⟩ := bind_eq_ok.mp h
    cases hspan
    cases h
    exact endsType_typeArguments hmoves hc.advance harguments
  · obtain ⟨arguments, c₂, harguments, h⟩ := bind_eq_ok.mp h
    cases harguments
    obtain ⟨_, _, hspan, h⟩ := bind_eq_ok.mp h
    cases hspan
    cases h
    exact endsType_advance hc (by rw [hkind]; decide)

theorem endsType_userTypeWith {u : UserType} (hc : c.Sound) (h : userTypeWith tp c = .ok u c') : EndsType c' := by
  unfold userTypeWith at h
  obtain ⟨start, _, hstart, h⟩ := bind_eq_ok.mp h
  cases hstart
  obtain ⟨first, c₁, hfirst, h⟩ := bind_eq_ok.mp h
  obtain ⟨others, c₂, hothers, h⟩ := bind_eq_ok.mp h
  cases h
  have hsegment : ∀ n, Forward n (typeSegment tp c.peek.span) := fun n => (strict_typeSegment (hmoves n) _).fewer
  have hc₁ : c₁.Sound := (precedes_of_ok hsegment hc hfirst).sound hc
  refine endsType_manyWhile (fun hd _ hread => ?_) hc₁ (endsType_typeSegment hmoves hc hfirst) hothers
  have hmoves' := precedes_of_ok (fun n => .bind .next fun _ => hsegment n) hd hread
  obtain ⟨_, _, hnext, hread⟩ := bind_eq_ok.mp hread
  cases hnext
  exact ⟨hmoves'.sound hd, endsType_typeSegment hmoves hd.advance hread⟩

include htype

omit hmoves in
theorem endsType_functionTail {start : Span} {e : TypeElement} (hc : c.Sound)
    (h : functionTail tp start c = .ok e c') : EndsType c' := by
  unfold functionTail at h
  obtain ⟨closed, _, htest, h⟩ := bind_eq_ok.mp h
  cases htest
  split at h
  · obtain ⟨_, _, hfail, -⟩ := bind_eq_ok.mp h
    contradiction
  · obtain ⟨_, c₁, hgroup, h⟩ := bind_eq_ok.mp h
    have hc₁ : c₁.Sound := (precedes_of_ok forward_skipGroup hc hgroup).sound hc
    obtain ⟨_, c₂, harrow, h⟩ := bind_eq_ok.mp h
    have hc₂ : c₂.Sound := (precedes_of_ok (fun _ => .expect _) hc₁ harrow).sound hc₁
    obtain ⟨_, c₃, hresult, h⟩ := bind_eq_ok.mp h
    obtain ⟨_, _, hspan, h⟩ := bind_eq_ok.mp h
    cases hspan
    cases h
    exact htype hc₂ hresult

theorem endsType_parenthesizedOrFunction {e : TypeElement} (hc : c.Sound)
    (h : parenthesizedOrFunction tp c = .ok e c') : EndsType c' := by
  unfold parenthesizedOrFunction at h
  obtain ⟨_, _, hhere, h⟩ := bind_eq_ok.mp h
  cases hhere
  obtain ⟨found, c₁, hparens, h⟩ := bind_eq_ok.mp h
  cases found with
  | none => exact endsType_functionTail htype hc h
  | some element =>
    cases h
    rw [parenthesized_eq] at hparens
    obtain ⟨_, _, hnext, hparens⟩ := bind_eq_ok.mp hparens
    cases hnext
    obtain ⟨inner, c₂, hinner, hclose⟩ := bind_eq_ok.mp hparens
    have hc₂ : c₂.Sound := (precedes_of_ok (fun n => .attempt (hmoves n)) hc.advance hinner).sound hc.advance
    cases inner with
    | none => cases hclose
    | some t =>
      rw [closeParenthesized_some] at hclose
      split at hclose
      · next hparen =>
        split at hclose
        · cases hclose
        · cases hclose
          exact endsType_advance hc₂ (by rw [isAt_iff.mp hparen]; decide)
      · cases hclose

theorem endsType_typeElement {e : TypeElement} (hc : c.Sound) (h : typeElement tp c = .ok e c') : EndsType c' := by
  rw [typeElement_eq] at h
  obtain ⟨_, _, hhere, h⟩ := bind_eq_ok.mp h
  cases hhere
  obtain ⟨e₀, c₁, helement, h⟩ := bind_eq_ok.mp h
  have hc₁ : c₁.Sound := (precedes_of_ok (forward_elementFrom hmoves _) hc helement).sound hc
  have hends : EndsType c₁ := by
    cases hkind : c.kind
    case leftParen =>
      rw [hkind] at helement
      exact endsType_parenthesizedOrFunction hmoves htype hc helement
    case identifier =>
      rw [hkind] at helement
      have helement : namedOrFunction tp c = .ok e₀ c₁ := helement
      unfold namedOrFunction at helement
      obtain ⟨_, _, hstart, helement⟩ := bind_eq_ok.mp helement
      cases hstart
      obtain ⟨user, c₂, huser, helement⟩ := bind_eq_ok.mp helement
      have hc₂ : c₂.Sound :=
        (precedes_of_ok (fun n => (strict_userTypeWith (hmoves n)).fewer) hc huser).sound hc
      obtain ⟨isFunction, _, htest, helement⟩ := bind_eq_ok.mp helement
      cases htest
      split at helement
      · obtain ⟨_, _, hnext, helement⟩ := bind_eq_ok.mp helement
        cases hnext
        exact endsType_functionTail htype hc₂.advance helement
      · cases helement
        exact endsType_userTypeWith hmoves hc huser
    all_goals
      rw [hkind] at helement
      contradiction
  unfold questionMarks at h
  obtain ⟨marks, c₂, hmarks, h⟩ := bind_eq_ok.mp h
  cases h
  refine endsType_manyWhile (fun hd ht hread => ?_) hc₁ hends hmarks
  cases hread
  exact ⟨hd.advance, endsType_advance hd (by rw [isAt_iff.mp ht]; decide)⟩

omit hmoves htype in
/-- What a type is read from: annotations, perhaps the mark of a suspending type, and its shape. -/
theorem typeWith_eq_ok {vp : TokenParser Expr} {t : TypeRef} (h : typeWith tp vp c = .ok t c') :
    ∃ as c₁ e, manyWhile (·.isAt .at) (annotationWith tp vp) c = .ok as c₁ ∧
      typeElement tp (if isAtSuspend c₁ = true then c₁.advance else c₁) = .ok e c' ∧
      t = ⟨e, as, Token.text (c.between c'), c'.spanFrom c.peek.span⟩ := by
  unfold typeWith at h
  obtain ⟨_, _, hhere, h⟩ := bind_eq_ok.mp h
  cases hhere
  obtain ⟨as, c₁, hannotations, h⟩ := bind_eq_ok.mp h
  obtain ⟨isSuspending, _, htest, h⟩ := bind_eq_ok.mp h
  cases htest
  have hread : ∀ {d : Cursor}, (do
      let element ← typeElement tp
      return (⟨element, as, ← textSince c, ← spanFrom c.peek.span⟩ : TypeRef)) d = .ok t c' →
      ∃ e, typeElement tp d = .ok e c' ∧ t = ⟨e, as, Token.text (c.between c'), c'.spanFrom c.peek.span⟩ := by
    intro d h
    obtain ⟨e, c₂, helement, h⟩ := bind_eq_ok.mp h
    obtain ⟨_, _, htext, h⟩ := bind_eq_ok.mp h
    cases htext
    obtain ⟨_, _, hspan, h⟩ := bind_eq_ok.mp h
    cases hspan
    cases h
    exact ⟨e, helement, rfl⟩
  split at h
  · next hsuspend =>
    obtain ⟨_, _, hnext, h⟩ := bind_eq_ok.mp h
    cases hnext
    obtain ⟨e, helement, rfl⟩ := hread h
    exact ⟨as, c₁, e, hannotations, by rw [if_pos hsuspend]; exact helement, rfl⟩
  · next hsuspend =>
    obtain ⟨e, helement, rfl⟩ := hread h
    exact ⟨as, c₁, e, hannotations, by rw [if_neg hsuspend]; exact helement, rfl⟩

end Construct

/-- Types end with a name, a closing bracket or a question mark, by induction on the number of tokens to come. -/
theorem endsType_type {t : TypeRef} (hc : c.Sound) (h : type c = .ok t c') : EndsType c' := by
  induction hsize : c.size using Nat.strongRecOn generalizing c t c' with
  | _ size ih =>
    have hmoves : ∀ n, Forward n (below c fun d _ => type d) := forward_below forward_type
    have htype : ∀ {d d' : Cursor} {t : TypeRef}, d.Sound → below c (fun d _ => type d) d = .ok t d' → EndsType d' := by
      intro d d' t hd hread
      unfold below at hread
      split at hread
      · next hless => exact ih d.size (hsize ▸ hless) hd hread rfl
      · contradiction
    rw [type] at h
    obtain ⟨as, c₁, e, hannotations, helement, -⟩ := typeWith_eq_ok h
    have hc₁ : c₁.Sound := (precedes_of_ok (fun n => .manyWhile
      (strict_annotationWith (hmoves n) (forward_below forward_value n)).fewer) hc hannotations).sound hc
    refine endsType_typeElement hmoves htype ?_ helement
    split
    · exact hc₁.advance
    · exact hc₁

/-- Types begin with an annotation, a name or a parenthesis. -/
theorem kind_of_type {t : TypeRef} (h : type c = .ok t c') : c.kind ∈ [TokenKind.at, .identifier, .leftParen] := by
  rw [type] at h
  obtain ⟨as, c₁, e, hannotations, helement, -⟩ := typeWith_eq_ok h
  by_cases hat : c.isAt .at = true
  · rw [isAt_iff.mp hat]
    decide
  rw [manyWhile, if_neg hat] at hannotations
  cases hannotations
  cases hsuspend : isAtSuspend c with
  | true =>
    rw [kind_of_isAtSuspend hsuspend]
    decide
  | false =>
    rw [hsuspend, typeElement_eq] at helement
    obtain ⟨_, _, hhere, helement⟩ := bind_eq_ok.mp helement
    cases hhere
    obtain ⟨e₀, c₁, helement, -⟩ := bind_eq_ok.mp helement
    have hkind : c.kind = .identifier ∨ c.kind = .leftParen := by
      by_contra hother
      obtain ⟨hname, hparen⟩ := not_or.mp hother
      have hfail : elementFrom (below c fun c' _ => type c') c.kind = failAtNext expectedType := by
        unfold elementFrom
        split <;> first | rfl | contradiction
      have helement : elementFrom (below c fun c' _ => type c') c.kind c = .ok e₀ c₁ := helement
      rw [hfail] at helement
      contradiction
    rcases hkind with hkind | hkind <;> rw [hkind] <;> decide

theorem written_type {t : TypeRef} (hc : c.Sound) (h : type c = .ok t c') : c.Written c' t.text := by
  obtain ⟨u, hprevious, hends⟩ := endsType_type hc h
  have hkind := kind_of_type h
  refine ⟨precedes_of_ok forward_type hc h, consumes_type (P := fun _ => True) c hc trivial t c' h, ?_, ?_,
    u, hprevious, ?_⟩
  · rw [type] at h
    obtain ⟨as, c₁, e, -, -, rfl⟩ := typeWith_eq_ok h
    rfl
  · constructor <;> intro hother <;> rw [hother] at hkind <;> contradiction
  · have hall : ∀ k ∈ typeEnds, Token.isSpaced k = false := by decide
    exact hall _ hends

/-! ## What is read, with the variance marks -/

/-- The written form of the variance mark that comes next, with a space if a word follows it.  It is empty if no mark
comes next. -/
def varianceText (c : Cursor) : String :=
  if isAtVariance c = true then c.peek.lexeme ++ (if c.secondKind = .identifier then " " else "") else ""

/-- The type arguments from a place behind `<` or a comma up to behind `>`, each with the variance mark in front. -/
inductive ArgumentsAt : Cursor → List (String × TypeArgument) → Cursor → Prop
  | last {c d : Cursor} {a : TypeArgument} (hread : typeArgument type c = .ok a d) (hend : d.kind = .greater) :
      ArgumentsAt c [(varianceText c, a)] d.advance
  | cons {c d c' : Cursor} {a : TypeArgument} {as : List (String × TypeArgument)}
      (hread : typeArgument type c = .ok a d) (hcomma : d.kind = .comma) (has : ArgumentsAt d.advance as c') :
      ArgumentsAt c ((varianceText c, a) :: as) c'

/-- A segment of a named type as it is written: its name, and its type arguments with their variance marks. -/
structure WrittenSegment where
  name : String
  arguments : List (String × TypeArgument)

namespace WrittenSegment

/-- The written form with the variance marks. -/
def text (s : WrittenSegment) : String := s.name ++ angled (s.arguments.map fun a => a.1 ++ a.2.text)

/-- The written form without them. -/
def plainText (s : WrittenSegment) : String := s.name ++ angled (s.arguments.map fun a => a.2.text)

/-- Whether no type argument has a variance mark. -/
def IsUnmarked (s : WrittenSegment) : Prop := ∀ a ∈ s.arguments, a.1 = ""

end WrittenSegment

/-- The segment of a named type at a place. -/
inductive SegmentAt : Cursor → WrittenSegment → Cursor → Prop
  | bare {c : Cursor} (hname : c.kind = .identifier) (hless : c.advance.kind ≠ .less) :
      SegmentAt c ⟨c.peek.lexeme, []⟩ c.advance
  | generic {c c' : Cursor} {as : List (String × TypeArgument)} (hname : c.kind = .identifier)
      (hless : c.advance.kind = .less) (has : ArgumentsAt c.advance.advance as c') :
      SegmentAt c ⟨c.peek.lexeme, as⟩ c'

/-- The named type at a place. -/
inductive NamedAt : Cursor → List WrittenSegment → Cursor → Prop
  | last {c c' : Cursor} {s : WrittenSegment} (hs : SegmentAt c s c') (hend : isAtDotIdentifier c' = false) :
      NamedAt c [s] c'
  | cons {c d c' : Cursor} {s : WrittenSegment} {ss : List WrittenSegment} (hs : SegmentAt c s d)
      (hdot : isAtDotIdentifier d = true) (hss : NamedAt d.advance ss c') : NamedAt c (s :: ss) c'

/-- The parts of a segment that the tree keeps. -/
def WrittenSegment.Keeps (s : WrittenSegment) (kept : TypeSegment) : Prop :=
  kept.name.name = s.name ∧ kept.arguments = s.arguments.map Prod.snd

/-! ### What the parsers read -/

theorem argumentsAt_of_manyWhile {d : Cursor} {a : TypeArgument} {others : List TypeArgument}
    (hfirst : typeArgument type c = .ok a d)
    (hothers : manyWhile (·.isAt .comma) (do let _ ← next; typeArgument type) d = .ok others c')
    (hend : c'.kind = .greater) : ∃ as, ArgumentsAt c as c'.advance ∧ a :: others = as.map Prod.snd := by
  generalize hitem : (do let _ ← next; typeArgument type : TokenParser TypeArgument) = item at hothers
  have hturn : ∀ {d d' : Cursor} {a : TypeArgument}, item d = .ok a d' → typeArgument type d.advance = .ok a d' := by
    intro d d' a hread
    subst hitem
    obtain ⟨_, _, hnext, hread⟩ := bind_eq_ok.mp hread
    cases hnext
    exact hread
  fun_induction manyWhile (·.isAt .comma) item d generalizing c a others c' with
  | case1 d ht e d' herror => contradiction
  | case2 d ht a' d₁ hread hsize e d₂ herror => contradiction
  | case3 d ht a' d₁ hread hsize as' d₂ hmore ih =>
    cases hothers
    obtain ⟨as, has, hkept⟩ := ih (hturn hread) hend hmore
    exact ⟨_, .cons hfirst (isAt_iff.mp ht) has, by rw [List.map_cons, ← hkept]⟩
  | case4 d ht a' d₁ hread hsize =>
    cases hothers
    exact ⟨_, .cons hfirst (isAt_iff.mp ht) (.last (hturn hread) hend), rfl⟩
  | case5 d ht =>
    cases hothers
    exact ⟨_, .last hfirst hend, rfl⟩

theorem argumentsAt_of_typeArguments {as : List TypeArgument} (h : typeArguments type c = .ok as c') :
    c.kind = .less ∧ ∃ marked, ArgumentsAt c.advance marked c' ∧ as = marked.map Prod.snd := by
  unfold typeArguments at h
  obtain ⟨_, c₁, hless, h⟩ := bind_eq_ok.mp h
  obtain ⟨hkind, -, rfl⟩ := expect_eq_ok.mp hless
  obtain ⟨first, c₂, hfirst, h⟩ := bind_eq_ok.mp h
  obtain ⟨others, c₃, hothers, h⟩ := bind_eq_ok.mp h
  obtain ⟨_, c₄, hgreater, h⟩ := bind_eq_ok.mp h
  cases h
  obtain ⟨hend, -, rfl⟩ := expect_eq_ok.mp hgreater
  exact ⟨hkind, argumentsAt_of_manyWhile hfirst hothers hend⟩

theorem segmentAt_of_typeSegment {start : Span} {kept : TypeSegment} (h : typeSegment type start c = .ok kept c') :
    ∃ s, SegmentAt c s c' ∧ s.Keeps kept := by
  unfold typeSegment at h
  obtain ⟨name, c₁, hname, h⟩ := bind_eq_ok.mp h
  obtain ⟨hkind, rfl, rfl⟩ := identifier_eq_ok.mp hname
  obtain ⟨hasArguments, _, htest, h⟩ := bind_eq_ok.mp h
  cases htest
  split at h
  · obtain ⟨arguments, c₂, harguments, h⟩ := bind_eq_ok.mp h
    obtain ⟨_, _, hspan, h⟩ := bind_eq_ok.mp h
    cases hspan
    cases h
    obtain ⟨hless, marked, hmarked, rfl⟩ := argumentsAt_of_typeArguments harguments
    exact ⟨_, .generic hkind hless hmarked, rfl, rfl⟩
  · next hless =>
    obtain ⟨arguments, c₂, harguments, h⟩ := bind_eq_ok.mp h
    cases harguments
    obtain ⟨_, _, hspan, h⟩ := bind_eq_ok.mp h
    cases hspan
    cases h
    exact ⟨_, .bare hkind fun hkind' => hless (isAt_iff.mpr hkind'), rfl, rfl⟩

theorem namedAt_of_manyWhile {start : Span} {d : Cursor} {kept : TypeSegment} {others : List TypeSegment}
    (hd : d.Sound) {s : WrittenSegment} (hs : SegmentAt c s d) (hkeeps : s.Keeps kept)
    (hothers : manyWhile isAtDotIdentifier (do let _ ← next; typeSegment type start) d = .ok others c') :
    ∃ ss, NamedAt c ss c' ∧ List.Forall₂ WrittenSegment.Keeps ss (kept :: others) := by
  generalize hitem : (do let _ ← next; typeSegment type start : TokenParser TypeSegment) = item at hothers
  have hturn : ∀ {e e' : Cursor} {kept : TypeSegment}, e.Sound → isAtDotIdentifier e = true → item e = .ok kept e' →
      e'.Sound ∧ e'.size < e.size ∧ ∃ s, SegmentAt e.advance s e' ∧ s.Keeps kept := by
    intro e e' kept he hdot hread
    subst hitem
    obtain ⟨_, _, hnext, hread⟩ := bind_eq_ok.mp hread
    cases hnext
    have hmoves := precedes_of_ok (fun n => (strict_typeSegment (forward_type n) start).fewer) he.advance hread
    have hend : e.kind ≠ .eof := by
      rw [isAt_iff.mp (kind_of_isAtDotIdentifier hdot)]
      decide
    exact ⟨hmoves.sound he.advance, hmoves.size_le.trans_lt (size_advance_lt he hend), segmentAt_of_typeSegment hread⟩
  fun_induction manyWhile isAtDotIdentifier item d generalizing c s kept others c' with
  | case1 d ht e d' herror => contradiction
  | case2 d ht a d₁ hread hsize e d₂ herror => contradiction
  | case3 d ht a d₁ hread hsize as' d₂ hmore ih =>
    cases hothers
    obtain ⟨hd₁, -, s₁, hs₁, hkeeps₁⟩ := hturn hd ht hread
    obtain ⟨ss, hss, hall⟩ := ih hd₁ hs₁ hkeeps₁ hmore
    exact ⟨s :: ss, .cons hs ht hss, .cons hkeeps hall⟩
  | case4 d ht a d₁ hread hsize => exact absurd (hturn hd ht hread).2.1 hsize
  | case5 d ht =>
    cases hothers
    exact ⟨[s], .last hs (Bool.eq_false_iff.mpr ht), .cons hkeeps .nil⟩

/-- What a parser of named types reads. -/
theorem namedAt_of_userType {u : UserType} (hc : c.Sound) (h : userType c = .ok u c') :
    ∃ ss, NamedAt c ss c' ∧ List.Forall₂ WrittenSegment.Keeps ss u.segments := by
  have h : userTypeWith type c = .ok u c' := h
  unfold userTypeWith at h
  obtain ⟨start, _, hstart, h⟩ := bind_eq_ok.mp h
  cases hstart
  obtain ⟨first, c₁, hfirst, h⟩ := bind_eq_ok.mp h
  obtain ⟨others, c₂, hothers, h⟩ := bind_eq_ok.mp h
  cases h
  have hc₁ : c₁.Sound := (precedes_of_ok (fun n => (strict_typeSegment (forward_type n) _).fewer) hc hfirst).sound hc
  obtain ⟨s, hs, hkeeps⟩ := segmentAt_of_typeSegment hfirst
  rw [segments_userTypeOf]
  exact namedAt_of_manyWhile hc₁ hs hkeeps hothers

/-! ### The texts of what is read -/

theorem written_argument {a : TypeArgument} {d : Cursor} (hc : c.InSource) (h : typeArgument type c = .ok a d) :
    c.Written d (varianceText c ++ a.text) := by
  unfold typeArgument at h
  obtain ⟨star, c₁, hstar, h⟩ := bind_eq_ok.mp h
  by_cases hat : c.isAt .star = true
  · rw [eat?, if_pos hat] at hstar
    cases hstar
    cases h
    have hkind : c.kind = .star := isAt_iff.mp hat
    have hunmarked : varianceText c = "" := by
      rw [varianceText, if_neg]
      intro hvariance
      rw [kind_of_isAtVariance hvariance] at hkind
      contradiction
    have htext : varianceText c ++ (TypeArgument.star c.peek.span).text = c.peek.lexeme := by
      rw [hunmarked, hc.lexeme hkind rfl]
      rfl
    rw [htext]
    exact .single hc.sound hkind (.inr rfl)
  · rw [eat?, if_neg hat] at hstar
    cases hstar
    obtain ⟨marked, _, htest, h⟩ := bind_eq_ok.mp h
    cases htest
    split at h
    · next hvariance =>
      obtain ⟨_, _, hnext, h⟩ := bind_eq_ok.mp h
      cases hnext
      obtain ⟨t, c₂, ht, h⟩ := bind_eq_ok.mp h
      cases h
      have hkind : c.kind = .identifier := kind_of_isAtVariance hvariance
      have hend : c.kind ≠ .eof := by
        rw [hkind]
        decide
      have hwritten := written_type hc.sound.advance ht
      refine ⟨Precedes.advance.trans hwritten.moves, hwritten.passes.trans (size_advance_lt hc.sound hend), ?_, ?_,
        hwritten.last⟩
      · rw [between_cons hc.sound hend hwritten.moves, Token.text, Token.textAfter, show c.peek.kind = .identifier from hkind,
          hwritten.textAfter hc.sound.advance, kind_advance hc.sound hend, varianceText, if_pos hvariance]
        simp only [isAtVariance, Bool.and_eq_true, Bool.or_eq_true, beq_iff_eq] at hvariance
        rcases hvariance.2 with (hsecond | hsecond) | hsecond <;> rw [hsecond] <;>
          simp [Token.needsSpace, Token.isWordy, TypeArgument.text, String.append_assoc]
      · rw [hkind]
        decide
    · next hvariance =>
      obtain ⟨t, c₂, ht, h⟩ := bind_eq_ok.mp h
      cases h
      rw [varianceText, if_neg hvariance, String.empty_append]
      exact written_type hc.sound ht

/-- The text of type arguments is their written form with all variance marks, behind `<`. -/
theorem written_arguments {as : List (String × TypeArgument)} (hc : c.InSource) (h : ArgumentsAt c as c') :
    c.Written c' (String.intercalate ", " (as.map fun a => a.1 ++ a.2.text) ++ ">") := by
  induction h with
  | @last c d a hread hend => exact (written_argument hc hread).close hc hend
  | @cons c d c' a as hread hcomma has ih =>
    have hwritten := written_argument hc hread
    have hrest := ih (hc.precedes (hwritten.moves.trans .advance))
    have hne : as.map (fun a => a.1 ++ a.2.text) ≠ [] := by cases has <;> exact List.cons_ne_nil _ _
    have hall := hwritten.join hc hcomma rfl (by decide) hrest
    have hspace : Token.needsSpace .comma d.advance.kind = true := by simp [Token.needsSpace]
    rw [hspace, if_pos rfl] at hall
    have hsep : ∀ rest : String, String.ofList [','] ++ (" " ++ rest) = ", " ++ rest :=
      fun rest => String.append_assoc.symm
    rw [List.map_cons, String.intercalate_cons_of_ne_nil hne]
    simpa only [String.append_assoc, hsep] using hall

theorem written_segment {s : WrittenSegment} (hc : c.InSource) (h : SegmentAt c s c') : c.Written c' s.text := by
  cases h with
  | bare hname hless =>
    rw [WrittenSegment.text, List.map_nil, angled, String.append_empty]
    exact .single hc.sound hname (.inl rfl)
  | generic hname hless has =>
    have hhead := Written.single hc.sound hname (.inl rfl)
    have harguments := written_arguments (hc.precedes (hhead.moves.trans .advance)) has
    have hall := hhead.join hc hless rfl (by decide) harguments
    rw [Token.needsSpace_behind_mark (.head _) harguments.first] at hall
    rw [WrittenSegment.text]
    cases has <;> simpa [angled, String.append_assoc] using hall

/-- **The text of a named type is its written form with all variance marks.** -/
theorem written_named {ss : List WrittenSegment} (hc : c.InSource) (h : NamedAt c ss c') :
    c.Written c' (Text.joined '.' (ss.map WrittenSegment.text)) := by
  induction h with
  | @last c c' s hs hend =>
    rw [List.map_singleton, Text.joined, String.intercalate_singleton]
    exact written_segment hc hs
  | @cons c d c' s ss hs hdot hss ih =>
    have hwritten := written_segment hc hs
    have hrest := ih (hc.precedes (hwritten.moves.trans .advance))
    have hall := hwritten.join hc (isAt_iff.mp (kind_of_isAtDotIdentifier hdot)) rfl (by decide) hrest
    have hne : ss.map WrittenSegment.text ≠ [] := by cases hss <;> exact List.cons_ne_nil _ _
    rw [Token.needsSpace_behind_mark (.tail _ (.head _)) hrest.first] at hall
    rw [List.map_cons, Text.joined_cons hne]
    simpa using hall

/-! ### The written form without the marks -/

theorem render_of_keeps {s : WrittenSegment} {kept : TypeSegment} (h : s.Keeps kept) : kept.render = s.plainText := by
  obtain ⟨hname, harguments⟩ := h
  rw [TypeSegment.render_eq, hname, harguments, List.map_map, WrittenSegment.plainText]
  rfl

theorem render_eq_plainText {ss : List WrittenSegment} {u : UserType} (h : List.Forall₂ WrittenSegment.Keeps ss u.segments) :
    u.render = Text.joined '.' (ss.map WrittenSegment.plainText) := by
  rw [UserType.render]
  refine congrArg _ ?_
  rw [← List.forall₂_eq_eq_eq, List.forall₂_map_left_iff, List.forall₂_map_right_iff]
  exact (h.imp fun _ _ => render_of_keeps).flip

/-- Texts that are longer than others by some lengths are so too with separators between them. -/
theorem length_intercalate {ι : Type} (sep : String) {f g : ι → String} {k : ι → Nat} {l : List ι}
    (h : ∀ i ∈ l, (f i).length = (g i).length + k i) :
    (String.intercalate sep (l.map f)).length = (String.intercalate sep (l.map g)).length + (l.map k).sum := by
  induction l with
  | nil => rfl
  | cons i l ih =>
    obtain ⟨hi, hl⟩ := List.forall_mem_cons.mp h
    cases l with
    | nil => simpa using hi
    | cons j l =>
      have hcons : ∀ f : ι → String, (String.intercalate sep ((i :: j :: l).map f)).length =
          (f i).length + sep.length + (String.intercalate sep ((j :: l).map f)).length := by
        intro f
        rw [List.map_cons, String.intercalate_cons_of_ne_nil (by simp), String.length_append, String.length_append]
      rw [hcons f, hcons g, ih hl, hi]
      simp only [List.map_cons, List.sum_cons]
      omega

/-- The length of all variance marks of a segment. -/
def WrittenSegment.marksLength (s : WrittenSegment) : Nat := (s.arguments.map fun a => a.1.length).sum

theorem WrittenSegment.length_text (s : WrittenSegment) : s.text.length = s.plainText.length + s.marksLength := by
  obtain ⟨name, arguments⟩ := s
  cases arguments with
  | nil => rfl
  | cons a as =>
    have hall := length_intercalate ", " (f := fun a : String × TypeArgument => a.1 ++ a.2.text)
      (g := fun a => a.2.text) (k := fun a => a.1.length) (l := a :: as)
      fun b _ => by rw [String.length_append, Nat.add_comm]
    rw [WrittenSegment.text, WrittenSegment.plainText, WrittenSegment.marksLength]
    simp only [List.map_cons, angled, String.length_append] at hall ⊢
    omega

theorem WrittenSegment.marksLength_eq_zero_iff {s : WrittenSegment} : s.marksLength = 0 ↔ s.IsUnmarked := by
  rw [marksLength, List.sum_eq_zero_iff, List.forall_mem_map, IsUnmarked]
  simp only [String.length_eq_zero_iff]

/-- Both written forms are the same exactly if there is no variance mark. -/
theorem joined_text_eq_iff {ss : List WrittenSegment} :
    Text.joined '.' (ss.map WrittenSegment.plainText) = Text.joined '.' (ss.map WrittenSegment.text) ↔
      ∀ s ∈ ss, s.IsUnmarked := by
  constructor
  · intro h
    have hlength := length_intercalate (String.singleton '.') (fun s (_ : s ∈ ss) => s.length_text)
    rw [Text.joined, Text.joined] at h
    rw [← h] at hlength
    have hzero : (ss.map WrittenSegment.marksLength).sum = 0 := by omega
    intro s hs
    exact WrittenSegment.marksLength_eq_zero_iff.mp
      (List.sum_eq_zero_iff.mp hzero _ (List.mem_map_of_mem hs))
  · intro h
    refine congrArg _ (List.map_congr_left fun s hs => ?_)
    rw [WrittenSegment.plainText, WrittenSegment.text]
    refine congrArg _ (congrArg _ (List.map_congr_left fun a ha => ?_))
    rw [h s hs a ha, String.empty_append]

/-! ### Class literals -/

theorem segments_receiverType (start : Span) (arguments : List TypeArgument) (first other : Ident) (others : List Ident) :
    (receiverType start arguments first (other :: others)).segments =
      ⟨first, [], start.merge first.span⟩ :: (receiverType start arguments other others).segments := by
  have hlast : (other :: others).getLastD first = others.getLastD other := by cases others <;> rfl
  simp only [receiverType, UserType.segments, List.dropLast_cons_cons, List.map_cons, List.cons_append, hlast]

/-- Names with type arguments behind the last one are a named type. -/
theorem namedAt_of_names {start : Span} {d e f : Cursor} {others : List Ident} {as : List (String × TypeArgument)}
    (hc : c.Sound) (hname : c.kind = .identifier) (hd : c.advance = d)
    (hothers : manyWhile isAtDotIdentifier dotIdentifier d = .ok others e) (hless : e.kind = .less)
    (has : ArgumentsAt e.advance as f) (hend : isAtDotIdentifier f = false) :
    ∃ ss, NamedAt c ss f ∧ List.Forall₂ WrittenSegment.Keeps ss
      (receiverType start (as.map Prod.snd) ⟨c.peek.lexeme, c.peek.span⟩ others).segments := by
  generalize hitem : dotIdentifier = item at hothers
  fun_induction manyWhile isAtDotIdentifier item d generalizing c others e with
  | case1 d ht e d' herror => contradiction
  | case2 d ht a d₁ hread hsize e d₂ herror => contradiction
  | case3 d ht a d₁ hread hsize as' d₂ hmore ih =>
    subst hitem hd
    cases hothers
    obtain ⟨_, _, hnext, hread⟩ := bind_eq_ok.mp hread
    cases hnext
    obtain ⟨hname₁, rfl, hd₁⟩ := identifier_eq_ok.mp hread
    obtain ⟨ss, hss, hall⟩ := ih hc.advance.advance hname₁ hd₁ hless has hmore
    have hdot : c.advance.kind ≠ .less := by
      rw [isAt_iff.mp (kind_of_isAtDotIdentifier ht)]
      decide
    refine ⟨_, .cons (.bare hname hdot) ht hss, ?_⟩
    rw [segments_receiverType]
    exact .cons ⟨rfl, rfl⟩ hall
  | case4 d ht a d₁ hread hsize =>
    subst hitem
    obtain ⟨_, _, hnext, hread⟩ := bind_eq_ok.mp hread
    cases hnext
    obtain ⟨-, -, rfl⟩ := identifier_eq_ok.mp hread
    have hdot : d.kind ≠ .eof := by
      rw [isAt_iff.mp (kind_of_isAtDotIdentifier ht)]
      decide
    have hfewer : d.advance.size < d.size := size_advance_lt (hd ▸ hc.advance) hdot
    exact absurd (Precedes.advance.size_le.trans_lt hfewer) hsize
  | case5 d ht =>
    subst hd
    cases hothers
    exact ⟨[⟨c.peek.lexeme, as⟩], .last (.generic hname hless has) hend, .cons ⟨rfl, rfl⟩ .nil⟩

/-- A class literal with type arguments is a named type in front of `::`. -/
theorem namedAt_of_classLiteral {t : TypeRef} {span : Span} (hc : c.Sound)
    (h : classLiteral type c = .ok (.classLiteral (.type t) span) c') :
    ∃ ss d, ∃ u : UserType, NamedAt c ss d ∧ d.kind = .colonColon ∧
      List.Forall₂ WrittenSegment.Keeps ss u.segments ∧ t.text = u.render := by
  unfold classLiteral at h
  obtain ⟨_, _, hstart, h⟩ := bind_eq_ok.mp h
  cases hstart
  obtain ⟨e, c₁, hreceiver, h⟩ := bind_eq_ok.mp h
  obtain ⟨_, c₂, hselector, h⟩ := bind_eq_ok.mp h
  obtain ⟨hkind, -, rfl⟩ := expect_eq_ok.mp hselector
  obtain ⟨_, c₃, hclass, h⟩ := bind_eq_ok.mp h
  obtain ⟨_, _, hspan, h⟩ := bind_eq_ok.mp h
  cases hspan
  cases h
  unfold receiver at hreceiver
  obtain ⟨start, _, hstart, hreceiver⟩ := bind_eq_ok.mp hreceiver
  cases hstart
  obtain ⟨first, c₄, hfirst, hreceiver⟩ := bind_eq_ok.mp hreceiver
  obtain ⟨hname, rfl, rfl⟩ := identifier_eq_ok.mp hfirst
  obtain ⟨others, c₅, hothers, hreceiver⟩ := bind_eq_ok.mp hreceiver
  obtain ⟨hasArguments, _, htest, hreceiver⟩ := bind_eq_ok.mp hreceiver
  cases htest
  split at hreceiver
  · next hless =>
    obtain ⟨arguments, c₆, harguments, hreceiver⟩ := bind_eq_ok.mp hreceiver
    obtain ⟨_, _, hspan, hreceiver⟩ := bind_eq_ok.mp hreceiver
    cases hspan
    cases hreceiver
    obtain ⟨hkind', as, has, rfl⟩ := argumentsAt_of_typeArguments harguments
    have hend : isAtDotIdentifier c₁ = false := by
      rw [isAtDotIdentifier, Cursor.isAt, hkind]
      rfl
    obtain ⟨ss, hss, hkeeps⟩ := namedAt_of_names hc hname rfl hothers hkind' has hend
    exact ⟨ss, c₁, _, hss, hkind, hkeeps, rfl⟩
  · cases others with
    | nil => cases hreceiver
    | cons other others =>
      obtain ⟨_, _, -, hreceiver⟩ := bind_eq_ok.mp hreceiver
      cases hreceiver

/-- A value that is a class literal is read as one. -/
theorem classLiteral_of_value {e : Expr} {span : Span} (hc : c.Sound)
    (h : value c = .ok (.classLiteral e span) c') : classLiteral type c = .ok (.classLiteral e span) c' := by
  rw [value_eq hc] at h
  unfold valueWith at h
  obtain ⟨_, _, hhere, h⟩ := bind_eq_ok.mp h
  cases hhere
  obtain ⟨structured, c₁, hstructured, h⟩ := bind_eq_ok.mp h
  obtain ⟨_, _, hhere, h⟩ := bind_eq_ok.mp h
  cases hhere
  generalize isAtArgumentEnd c₁ = ended at h
  split at h
  · cases h
    unfold structuredValue at hstructured
    obtain ⟨isCollection, _, htest, hstructured⟩ := bind_eq_ok.mp hstructured
    cases htest
    split at hstructured
    · obtain ⟨e, _, hcollection, hstructured⟩ := bind_eq_ok.mp hstructured
      cases hstructured
      unfold collection at hcollection
      obtain ⟨_, _, -, hcollection⟩ := bind_eq_ok.mp hcollection
      obtain ⟨_, _, -, hcollection⟩ := bind_eq_ok.mp hcollection
      obtain ⟨_, _, -, hcollection⟩ := bind_eq_ok.mp hcollection
      obtain ⟨_, _, -, hcollection⟩ := bind_eq_ok.mp hcollection
      cases hcollection
    · unfold attempt at hstructured
      split at hstructured
      · next hliteral =>
        cases hstructured
        exact hliteral
      · cases hstructured
  · obtain ⟨_, _, -, h⟩ := bind_eq_ok.mp h
    obtain ⟨text, span, hother⟩ := exists_other_of_otherValue h
    contradiction

/-! ## Both written forms -/

/-- **The tree shows a named type as it is written exactly if no type argument of its segments has a variance mark.**

What the parser of named types reads is the run of segments at its place.  The text of the tokens that it passes has
all variance marks, and `UserType.render` has those inside the type arguments, but not those in front of them.  The
same holds for the type in front of the `::` of a class literal. -/
theorem render_eq_text_iff (hc : c.InSource) :
    (∀ u c', userType c = .ok u c' → ∃ ss, NamedAt c ss c' ∧ List.Forall₂ WrittenSegment.Keeps ss u.segments ∧
      Token.text (c.between c') = Text.joined '.' (ss.map WrittenSegment.text) ∧
      u.render = Text.joined '.' (ss.map WrittenSegment.plainText) ∧
      (u.render = Token.text (c.between c') ↔ ∀ s ∈ ss, s.IsUnmarked)) ∧
    ∀ t span c', value c = .ok (.classLiteral (.type t) span) c' → ∃ ss d, NamedAt c ss d ∧ d.kind = .colonColon ∧
      Token.text (c.between d) = Text.joined '.' (ss.map WrittenSegment.text) ∧
      t.text = Text.joined '.' (ss.map WrittenSegment.plainText) ∧
      (t.text = Token.text (c.between d) ↔ ∀ s ∈ ss, s.IsUnmarked) := by
  constructor
  · intro u c' h
    obtain ⟨ss, hss, hkeeps⟩ := namedAt_of_userType hc.sound h
    have hplain := render_eq_plainText hkeeps
    have htext := (written_named hc hss).text_eq
    exact ⟨ss, hss, hkeeps, htext, hplain, by rw [hplain, htext, joined_text_eq_iff]⟩
  · intro t span c' h
    obtain ⟨ss, d, u, hss, hkind, hkeeps, hrender⟩ := namedAt_of_classLiteral hc.sound (classLiteral_of_value hc.sound h)
    have hplain := hrender.trans (render_eq_plainText hkeeps)
    have htext := (written_named hc hss).text_eq
    exact ⟨ss, d, hss, hkind, htext, hplain, by rw [hplain, htext, joined_text_eq_iff]⟩

/-- The written forms of the named type that a source text begins with: that of the tree and that of the tokens. -/
def writtenForms (source : String) : Option (String × String) :=
  match userType (Parser.ofSource source).cursor with
  | .ok u c' => some (u.render, Token.text ((Parser.ofSource source).cursor.between c'))
  | .error _ _ => none

theorem exists_of_writtenForms {source rendered text : String} (h : writtenForms source = some (rendered, text)) :
    ∃ u c', userType (Parser.ofSource source).cursor = .ok u c' ∧ u.render = rendered ∧
      Token.text ((Parser.ofSource source).cursor.between c') = text := by
  unfold writtenForms at h
  split at h
  · next u c' hread =>
    cases h
    exact ⟨u, c', hread, rfl, rfl⟩
  · contradiction

/-- A variance mark inside a type argument is in both written forms. -/
example : writtenForms "Map<String, List<out Number>>" =
    some ("Map<String, List<out Number>>", "Map<String, List<out Number>>") := by
  decide +kernel

end TokenParser

namespace MarkedArgument

open TokenParser

/-- A type with a variance mark in front of its argument. -/
def source : String := "List<out Number>"

theorem writtenForms_source : writtenForms source = some ("List<Number>", "List<out Number>") := by decide +kernel

theorem inSource : (Parser.ofSource source).cursor.InSource := ⟨source, 0, rfl⟩

/-- So a mark was passed. -/
theorem exists_marked : (Parser.ofSource source).cursor.InSource ∧
    ∃ ss c', NamedAt (Parser.ofSource source).cursor ss c' ∧ ¬ ∀ s ∈ ss, s.IsUnmarked := by
  obtain ⟨u, c', hread, hrender, htext⟩ := exists_of_writtenForms writtenForms_source
  obtain ⟨ss, hss, -, -, -, hiff⟩ := (render_eq_text_iff inSource).1 u c' hread
  rw [hrender, htext] at hiff
  exact ⟨inSource, ss, c', hss, fun hunmarked => absurd (hiff.mpr hunmarked) (by decide)⟩

/-- Not every named type is shown as it is written. -/
theorem not_forall_render_eq_text : ¬ ∀ (c c' : Cursor) (u : UserType), c.InSource → userType c = .ok u c' →
    u.render = Token.text (c.between c') := by
  intro h
  obtain ⟨u, c', hread, hrender, htext⟩ := exists_of_writtenForms writtenForms_source
  have hsame := h _ c' u inSource hread
  rw [hrender, htext] at hsame
  exact absurd hsame (by decide)

end MarkedArgument

end ServiceCatalog
