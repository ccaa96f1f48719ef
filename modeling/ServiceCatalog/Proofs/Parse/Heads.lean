import ServiceCatalog.Parse.Declaration
import ServiceCatalog.Proofs.Parse.Constructs

/-!
# What headers and heads pass
-/

namespace ServiceCatalog

namespace TokenParser

open Cursor

/-! ## Headers -/

theorem passes_path {P : Cursor → Prop} : Passes false false P path := by
  unfold path
  exact .bind .nextSpan fun _ => .bind .identifier fun _ => .bind takes_dotIdentifiers fun _ =>
    .bind (.spanFrom _) fun _ => .pure _

theorem passes_packageHeader {P : Cursor → Prop} : Passes false false P packageHeader := by
  unfold packageHeader
  exact .bind (.expect rfl rfl) fun _ => .bind passes_path fun _ => .bind (.eat rfl rfl) fun _ => .pure _

/-- A repetition whose turns all move on ends where its test fails. -/
theorem test_of_manyWhile {S : List Token → Prop} {α : Type} {t : Cursor → Bool} {p : TokenParser α}
    (hp : Takes S (fun c => t c = true) p)
    (hless : ∀ c, c.Sound → t c = true → ∀ a c', p c = .ok a c' → c'.size < c.size) {c c' : Cursor} {as : List α}
    (hc : c.Sound) (hok : manyWhile t p c = .ok as c') : t c' = false := by
  fun_induction manyWhile t p c generalizing as c' with
  | case1 c ht e c'' herror => contradiction
  | case2 c ht a c₁ hfirst hsize e c₂ herror => contradiction
  | case3 c ht a c₁ hfirst hsize as' c₂ hothers ih =>
    cases hok
    exact ih ((hp c hc ht a c₁ hfirst).sound hc) hothers
  | case4 c ht a c₁ hfirst hsize => exact absurd (hless c hc ht a c₁ hfirst) hsize
  | case5 c ht =>
    cases hok
    exact Bool.eq_false_iff.mpr ht

section Import

variable {S : List Token → Prop} [AdmitsTypes S] {P : Cursor → Prop}

theorem takes_importAlias : Takes S P importAlias := by
  unfold importAlias
  refine .bind (.eat (AdmitsTypes.of_kind rfl)) fun found => .ite ?_ (.pure _)
  rw [map_eq_pure_bind]
  exact .bind (.identifier (AdmitsTypes.of_kind rfl)) fun _ => .pure _

/-- Reads an import from behind the first identifier of its path. -/
def importRest (mark start : Span) (first : Ident) : TokenParser Import := do
  let others ← manyWhile (fun c => c.isAt .dot && c.secondKind != .star) dotIdentifier
  let isWildcard ← eat .dot
  if isWildcard then
    let _ ← next
  let path : Path := ⟨first :: others, ← spanFrom start⟩
  let localName ← if isWildcard then pure none else importAlias
  let _ ← eat .semicolon
  return ⟨path, isWildcard, localName, ← spanFrom mark⟩

theorem importHeader_eq : importHeader = (do
    let mark ← expect .import
    let start ← nextSpan
    let first ← identifier
    importRest mark.span start first) := rfl

theorem takes_importRest (mark start : Span) (first : Ident) : Takes S P (importRest mark start first) := by
  unfold importRest
  let more : Cursor → Bool := fun c => c.isAt .dot && c.secondKind != .star
  have hmore : ∀ c, more c = true → c.isAt .dot = true := fun c h => (Bool.and_eq_true _ _ ▸ h).1
  have hturn : Takes S (fun c => more c = true) dotIdentifier :=
    .bind (.next fun c h => single_of_isAt rfl (hmore c h)) fun _ => .identifier (AdmitsTypes.of_kind rfl)
  have hless : ∀ c, c.Sound → more c = true → ∀ i c', dotIdentifier c = .ok i c' → c'.size < c.size := by
    intro c hc h i c' hok
    obtain ⟨_, _, hnext, hok⟩ := bind_eq_ok.mp hok
    cases hnext
    obtain ⟨-, -, rfl⟩ := identifier_eq_ok.mp hok
    have := size_advance_lt hc (by rw [isAt_iff.mp (hmore c h)]; nofun)
    rw [size_advance]
    omega
  refine .bind_of (Q := fun _ c => more c = false) (.manyWhile hturn)
    (fun c hc _ _ c' hok => test_of_manyWhile hturn hless hc hok) fun others => ?_
  -- a dot that no identifier is read behind has a star behind it
  refine .bind_of (Q := fun isWildcard c => isWildcard = true → c.kind = .star) (.eat (AdmitsTypes.of_kind rfl)) ?_
    fun isWildcard => ?_
  · intro c hc hstop isWildcard c' hok hwildcard
    unfold eat at hok
    split at hok
    · next hdot =>
      cases hok
      rw [kind_advance hc (by rw [isAt_iff.mp hdot]; nofun)]
      simpa [more, hdot] using hstop
    · cases hok
      contradiction
  · have hread : ∀ (path : Path) (localName : Option Ident), Takes S (fun _ => True) (do
        let _ ← eat .semicolon
        return (⟨path, isWildcard, localName, ← spanFrom mark⟩ : Import)) :=
      fun _ _ => .bind (.eat (AdmitsTypes.of_kind rfl)) fun _ => .bind (.spanFrom _) fun _ => .pure _
    have hpath : Takes S (fun _ => True) (do
        let path : Path := ⟨first :: others, ← spanFrom start⟩
        let localName ← if isWildcard then pure none else importAlias
        let _ ← eat .semicolon
        return (⟨path, isWildcard, localName, ← spanFrom mark⟩ : Import)) :=
      .bind (.spanFrom _) fun _ => .ite (.bind (.pure _) fun _ => hread _ _)
        (.bind takes_importAlias fun _ => hread _ _)
    cases isWildcard with
    | true => exact .bind (.next fun c h => AdmitsTypes.of_kind rfl _ (h rfl)) fun _ => hpath
    | false => exact hpath.anywhere

theorem passes_importHeader : Passes false false P importHeader := by
  rw [importHeader_eq]
  exact .bind (.expect rfl rfl) fun _ => .bind .nextSpan fun _ => .bind .identifier fun _ => takes_importRest _ _ _

end Import

/-! ## Heads of declarations -/

theorem kind_of_isAtModifier {c : Cursor} (h : isAtModifier c = true) : c.isAt .identifier = true := by
  simp only [isAtModifier, Bool.and_eq_true] at h
  exact h.1.1.1

theorem passes_preamble {P : Cursor → Prop} : Passes false false P preamble := by
  unfold preamble
  refine .bind (.manyWhile ?_) fun _ => .pure _
  unfold preambleItem
  refine .ite_test (.bind passes_annotations fun _ => .pure _) (.bind (.next fun c h => ?_) fun _ => .pure _)
  have hmodifier : isAtModifier c = true := by simpa [h.2] using h.1
  exact plain_of_isAt (kind_of_isAtModifier hmodifier) rfl rfl

/-- Angle brackets are counted up to a brace only. -/
theorem angleDepth_eq_some {depth depth' : Nat} {k : TokenKind} (h : angleDepth depth k = some depth') :
    k ≠ .leftBrace ∧ k ≠ .rightBrace := by
  constructor <;> rintro rfl <;> contradiction

/-- A type parameter list has no braces, but may have brackets that close nothing. -/
theorem leads_closeAngles {opening : Span} {depth : Nat} {c c' : Cursor} (hc : c.Sound)
    (hok : closeAngles opening depth c = .ok () c') : c.Leads true false c' := by
  have hone : ∀ {depth depth' c}, angleDepth depth (Cursor.kind c) = some depth' →
      Passes true false (· = c) skipOne := fun h =>
    passes_skipOne (fun _ hc hbrace => absurd hbrace (hc ▸ (angleDepth_eq_some h).1))
      fun _ hc _ => ⟨rfl, hc ▸ (angleDepth_eq_some h).2⟩
  fun_induction closeAngles opening depth c generalizing c' with
  | case1 c =>
    cases hok
    exact .refl
  | case2 depth c hdepth hstop => contradiction
  | case3 depth c hdepth depth' hangle e c'' herror => contradiction
  | case4 depth c hdepth depth' hangle _ c₁ hstep hless ih =>
    have hlead := hone hangle c hc rfl () c₁ hstep
    exact hlead.trans (ih (hlead.sound hc) hok)
  | case5 depth c hdepth depth' hangle _ c₁ hstep hless =>
    cases hok
    exact hone hangle c hc rfl () _ hstep

theorem passes_skipAngles {P : Cursor → Prop} : Passes true false P skipAngles := by
  unfold skipAngles
  exact .bind (.expect rfl rfl) fun _ c hc _ _ c' hok => leads_closeAngles hc hok

theorem passes_skipConstructorModifier :
    Passes false false (fun c => isAtConstructorModifier c = true) skipConstructorModifier := by
  unfold skipConstructorModifier
  refine .ite_test (.bind passes_annotations fun _ => .pure _) (.bind (.next fun c h => ?_) fun _ => .pure _)
  have hword : c.isAt .identifier = true := by
    have := h.1
    simp only [isAtConstructorModifier, h.2, Bool.false_and, Bool.false_or, Bool.and_eq_true] at this
    exact this.1
  exact plain_of_isAt hword rfl rfl

/-- The parameters of a primary constructor are a group; modifiers without one are not passed. -/
theorem passes_skipConstructor {P : Cursor → Prop} : Passes false false P skipConstructor := by
  intro c hc _ _ c' hok
  unfold skipConstructor at hok
  obtain ⟨_, _, hhere, hok⟩ := bind_eq_ok.mp hok
  cases hhere
  obtain ⟨_, c₁, hmodifiers, hok⟩ := bind_eq_ok.mp hok
  obtain ⟨hasKeyword, c₂, hkeyword, hok⟩ := bind_eq_ok.mp hok
  have hlead : c.Leads false false c₁ :=
    Passes.manyWhile (P := fun _ => True) passes_skipConstructorModifier c hc trivial _ c₁ hmodifiers
  have hlead' : c.Leads false false c₂ :=
    hlead.trans (Passes.eatWord (P := fun _ => True) _ c₁ (hlead.sound hc) trivial _ c₂ hkeyword)
  have hgroup : Passes false false (fun c => c.kind = .leftParen) skipGroup :=
    passes_skipGroup fun c h hbrace => by rw [h] at hbrace; contradiction
  obtain ⟨atParameters, _, htest, hok⟩ := bind_eq_ok.mp hok
  cases htest
  split at hok
  · next hparen =>
    rw [Bool.and_eq_true] at hparen
    exact hlead'.trans (hgroup c₂ (hlead'.sound hc) (isAt_iff.mp hparen.1) _ c' hok)
  · split at hok
    · cases hok
      exact .refl
    · cases hok
      exact hlead'

/-- Before the end of a clause there is no brace. -/
theorem ne_brace_of_endsClause {c : Cursor} (h : endsClause c = false) :
    c.kind ≠ .leftBrace ∧ c.kind ≠ .rightBrace := by
  simp only [endsClause, isAt, Bool.or_eq_false_iff, beq_eq_false_iff_ne] at h
  exact h.1

/-- A clause passes no brace outside a group, but may pass a bracket that closes nothing. -/
theorem passes_clause {P : Cursor → Prop} {stop : Cursor → Bool} (h : ∀ c, stop c = false → endsClause c = false) :
    Passes true false P (skipUntil stop) :=
  passes_skipUntil (fun c hc hbrace => absurd hbrace (ne_brace_of_endsClause (h c hc)).1)
    fun c hc _ => ⟨rfl, (ne_brace_of_endsClause (h c hc)).2⟩

theorem kind_of_isAtArguments {c : Cursor} (h : isAtArguments c = true) : c.kind = .leftParen := by
  rw [isAtArguments, Bool.and_eq_true] at h
  exact isAt_iff.mp h.1

theorem passes_supertype {P : Cursor → Prop} : Passes true false P supertype := by
  unfold supertype
  have hdelegation : ∀ t : TypeRef, Passes true false (fun _ => True) (do
      if ← eatWord "by" then skipUntil fun c => c.isAt .comma || endsClause c
      return t) := by
    refine fun t => .bind (.eatWord _) fun found => .ite (.bind (passes_clause fun c h => ?_) fun _ => .pure _) (.pure _)
    rw [Bool.or_eq_false_iff] at h
    exact h.2
  refine .bind (passes_type.mono (fun _ => rfl) id) fun t => .ite_test (.bind (passes_skipGroup fun c h hbrace => ?_) fun _ =>
    hdelegation t) (hdelegation t).anywhere
  rw [kind_of_isAtArguments h.2] at hbrace
  contradiction

theorem passes_supertypes {P : Cursor → Prop} : Passes true false P supertypes := by
  unfold supertypes
  exact .bind passes_supertype fun _ => .bind (.manyWhile (.bind (.next fun c h => plain_of_isAt h rfl rfl) fun _ =>
    passes_supertype)) fun _ => .pure _

/-- A type alias begins with its keyword and has no braces. -/
theorem leads_typeAlias {start : Span} {annotations : List AnnotationUse} {a : TypeAlias} {c c' : Cursor}
    (hc : c.Sound) (hok : typeAlias start annotations c = .ok a c') :
    c.Leads true false c' ∧ c'.size < c.size := by
  have htarget : ∀ name : Ident, Passes true false (fun _ => True) (do
      if ← test (fun c => !c.isAt .equal) then failExpecting TokenKind.equal.description
      let _ ← next
      let target ← type
      return (⟨name, annotations, target, ← spanFrom start⟩ : TypeAlias)) := by
    refine fun name => .ite_test (.failAtNext_bind _) (.bind (.next fun c h => ?_) fun _ => ?_)
    · exact plain_of_isAt (by simpa using h.2) rfl rfl
    · exact .bind (passes_type.mono (fun _ => rfl) id) fun _ => .bind (.spanFrom _) fun _ => .pure _
  unfold typeAlias at hok
  obtain ⟨_, c₁, hkeyword, hok⟩ := bind_eq_ok.mp hok
  obtain ⟨hkind, -, rfl⟩ := expect_eq_ok.mp hkeyword
  have hlead : c.advance.Leads true false c' :=
    (Passes.bind (P := fun _ => True) .identifier fun name =>
      .ite_test (.bind passes_skipAngles fun _ => htarget name) (htarget name).anywhere) _ hc.advance trivial a c' hok
  have hfirst : c.Leads true false c.advance := leads_advance (by rw [hkind]; rfl) (by rw [hkind]; rfl)
  exact ⟨hfirst.trans hlead, Nat.lt_of_le_of_lt hlead.size_le (size_advance_lt hc (by rw [hkind]; nofun))⟩

end TokenParser

/-- The keyword that declares the classes of a kind. -/
def ClassKind.keyword : ClassKind → TokenKind
  | «class» | enumClass | annotationClass => .class
  | interface => .interface
  | object | companionObject => .object

/-- Whether a keyword and the tokens behind it are the head of a class: they begin with its name, if it has
one, and have no brace outside groups in round and square brackets. -/
structure IsHead (kind : ClassKind) (name : Ident) (first : Token) (head : List Token) : Prop where
  keyword : first.kind = kind.keyword
  naming : (∃ t ts, head = t :: ts ∧ t.kind = .identifier ∧ name = ⟨t.lexeme, t.span⟩) ∨
    kind = .companionObject ∧ name = ⟨"Companion", first.span⟩
  run : Run true false head

namespace TokenParser

open Cursor

theorem kind_of_classKind? {modifiers : List String} {c : Cursor} {kind : ClassKind}
    (h : classKind? modifiers c = some kind) :
    c.kind = kind.keyword ∧ kind.keyword ≠ .fun ∨ c.kind = .fun ∧ c.secondKind = .interface ∧ kind = .interface := by
  unfold classKind? at h
  split at h
  · next hkind =>
    rw [hkind]
    split at h
    · cases h; exact .inl ⟨rfl, nofun⟩
    · split at h <;> cases h <;> exact .inl ⟨rfl, nofun⟩
  · next hkind => rw [hkind]; cases h; exact .inl ⟨rfl, nofun⟩
  · next hkind =>
    split at h
    · next hsecond => cases h; exact .inr ⟨hkind, hsecond, rfl⟩
    · contradiction
  · next hkind =>
    rw [hkind]
    split at h
    · cases h; exact .inl ⟨rfl, nofun⟩
    · split at h
      · cases h; exact .inl ⟨rfl, nofun⟩
      · contradiction
  · contradiction

/-- Moving on takes the next token from those to come. -/
theorem rest_eq_cons {c : Cursor} (hc : c.Sound) (h : c.kind ≠ .eof) : c.rest = c.peek :: c.advance.rest := by
  obtain ⟨t, ts, hrest, hpeek⟩ := hc.exists_cons h
  rw [advance, hrest, hpeek]

theorem keyword_ne_eof (kind : ClassKind) : kind.keyword ≠ .eof := by cases kind <;> nofun

/-- In front of the keyword of a class stands `fun` or nothing. -/
theorem eat_fun_ok {modifiers : List String} {kind : ClassKind} {found : Bool} {c c₁ : Cursor} (hc : c.Sound)
    (hkind : classKind? modifiers c = some kind) (hok : eat .fun c = .ok found c₁) :
    c₁.Sound ∧ ∃ before, c.rest = before ++ c₁.rest ∧ c₁.eof = c.eof ∧ Run false false before ∧
      c₁.kind = kind.keyword := by
  unfold eat at hok
  rcases kind_of_classKind? hkind with ⟨hkeyword, hfun⟩ | ⟨hfun, hsecond, rfl⟩
  · rw [if_neg (by rw [isAt_iff, hkeyword]; exact hfun)] at hok
    cases hok
    exact ⟨hc, [], rfl, rfl, .nil, hkeyword⟩
  · rw [if_pos (isAt_iff.mpr hfun)] at hok
    cases hok
    have hstart : c.kind ≠ .eof := by rw [hfun]; nofun
    have hfun' : c.peek.kind = .fun := hfun
    refine ⟨hc.advance, [c.peek], rest_eq_cons hc hstart, eof_advance c, .plain ?_ ?_, ?_⟩
    · rw [hfun']; rfl
    · rw [hfun']; rfl
    · rw [kind_advance hc hstart, hsecond]
      rfl

/-- A class begins with its keyword, before which `fun` may stand, and its name. -/
theorem classNaming_ok {modifiers : List String} {kind : ClassKind} {name : Ident} {c c' : Cursor} (hc : c.Sound)
    (hkind : classKind? modifiers c = some kind) (hok : classNaming kind c = .ok name c') :
    ∃ before keyword named, c.rest = before ++ keyword :: named ++ c'.rest ∧ c'.eof = c.eof ∧
      Run false false before ∧ keyword.kind = kind.keyword ∧
      (named = [] ∧ kind = .companionObject ∧ name = ⟨"Companion", keyword.span⟩ ∨
        ∃ t, named = [t] ∧ t.kind = .identifier ∧ name = ⟨t.lexeme, t.span⟩) := by
  unfold classNaming at hok
  obtain ⟨found, c₁, heat, hok⟩ := bind_eq_ok.mp hok
  obtain ⟨keyword, c₂, hnext, hok⟩ := bind_eq_ok.mp hok
  cases hnext
  obtain ⟨hc₁, before, hbefore, heof, hrun, hkeyword⟩ := eat_fun_ok hc hkind heat
  have hrest : c₁.rest = c₁.peek :: c₁.advance.rest :=
    rest_eq_cons hc₁ (by rw [hkeyword]; exact keyword_ne_eof kind)
  obtain ⟨named, _, htest, hok⟩ := bind_eq_ok.mp hok
  cases htest
  split at hok
  · next hcompanion =>
    cases hok
    rw [Bool.and_eq_true, decide_eq_true_eq] at hcompanion
    refine ⟨before, c₁.peek, [], ?_, ?_, hrun, hkeyword, .inl ⟨rfl, hcompanion.1, rfl⟩⟩
    · rw [hbefore, hrest]
      simp
    · rw [eof_advance, heof]
  · obtain ⟨hname, rfl, rfl⟩ := identifier_eq_ok.mp hok
    have hrest' : c₁.advance.rest = c₁.advance.peek :: c₁.advance.advance.rest :=
      rest_eq_cons hc₁.advance (by rw [hname]; nofun)
    refine ⟨before, c₁.peek, [c₁.advance.peek], ?_, ?_, hrun, hkeyword, .inr ⟨_, rfl, hname, rfl⟩⟩
    · rw [hbefore, hrest, hrest']
      simp
    · rw [eof_advance, eof_advance, heof]

/-- Whether what a parser answers always has a property. -/
def Answers {α : Type} (P : α → Prop) (p : TokenParser α) : Prop := ∀ c a c', p c = .ok a c' → P a

namespace Answers

variable {α β : Type} {P : β → Prop}

theorem pure {b : β} (h : P b) : Answers P (Pure.pure b) := fun _ _ _ hok => by cases hok; exact h

theorem bind {p : TokenParser α} {f : α → TokenParser β} (h : ∀ a, Answers P (f a)) : Answers P (p >>= f) :=
  fun _ _ _ hok => by
    obtain ⟨a, c', -, hok⟩ := bind_eq_ok.mp hok
    exact h a c' _ _ hok

theorem ite {b : Bool} {p q : TokenParser β} (hp : Answers P p) (hq : Answers P q) :
    Answers P (if b = true then p else q) := by
  cases b
  · exact hq
  · exact hp

end Answers

/-- Reads a class from behind its name and its type parameters up to its body. -/
def classTail (name : Ident) : TokenParser (Ident × List TypeRef) := do
  skipConstructor
  let supertypes ← if ← eat .colon then supertypes else pure []
  if ← test (·.isAtWord "where") then skipUntil endsClause
  return (name, supertypes)

theorem classHead_eq (kind : ClassKind) : classHead kind = (do
    let name ← classNaming kind
    if ← test (·.isAt .less) then skipAngles
    classTail name) := rfl

theorem passes_classTail (name : Ident) : Passes true false (fun _ => True) (classTail name) :=
  have hconstraints : ∀ ts : List TypeRef, Passes true false (fun _ => True) (do
      if ← test (·.isAtWord "where") then skipUntil endsClause
      return (name, ts)) := fun _ => .ite_test (.bind (passes_clause fun _ h => h) fun _ => .pure _) (.pure _)
  .bind (passes_skipConstructor.mono (fun _ => rfl) id) fun _ => .bind (.eat rfl rfl) fun _ =>
    .ite (.bind passes_supertypes fun _ => hconstraints _) (.bind (.pure _) fun _ => hconstraints _)

theorem answers_classTail (name : Ident) :
    Answers (fun answer : Ident × List TypeRef => answer.1 = name) (classTail name) :=
  have hconstraints : ∀ ts : List TypeRef, Answers (fun answer => answer.1 = name) (do
      if ← test (·.isAtWord "where") then skipUntil endsClause
      return (name, ts)) := fun _ => .bind fun _ => .ite (.bind fun _ => .pure rfl) (.pure rfl)
  .bind fun _ => .bind fun _ => .ite (.bind fun _ => hconstraints _) (.bind fun _ => hconstraints _)

/-- The head of a class begins with its keyword, before which `fun` may stand. -/
theorem classHead_ok {modifiers : List String} {kind : ClassKind} {name : Ident} {ts : List TypeRef}
    {c c' : Cursor} (hc : c.Sound) (hkind : classKind? modifiers c = some kind)
    (hok : classHead kind c = .ok (name, ts) c') :
    ∃ before keyword head, c.rest = before ++ keyword :: head ++ c'.rest ∧ c'.eof = c.eof ∧
      Run false false before ∧ IsHead kind name keyword head := by
  rw [classHead_eq] at hok
  obtain ⟨name', c₁, hnaming, hok⟩ := bind_eq_ok.mp hok
  obtain ⟨before, keyword, named, hrest, heof, hbefore, hkeyword, hnamed⟩ := classNaming_ok hc hkind hnaming
  have hc₁ : c₁.Sound := ⟨heof ▸ hc.eof, fun t ht => hc.rest t (hrest ▸ List.mem_append_right _ ht)⟩
  have hname : name = name' :=
    (Answers.bind fun _ => .ite (.bind fun _ => answers_classTail name') (answers_classTail name')) c₁ _ c' hok
  obtain ⟨head, hhead, heof', hrun⟩ : c₁.Leads true false c' :=
    (Passes.ite_test (P := fun _ => True) (.bind passes_skipAngles fun _ => passes_classTail name')
      (passes_classTail name').anywhere) c₁ hc₁ trivial _ c' hok
  subst hname
  refine ⟨before, keyword, named ++ head, by rw [hrest, hhead]; simp, heof'.trans heof, hbefore, hkeyword, ?_, ?_⟩
  · rcases hnamed with ⟨-, hcompanion⟩ | ⟨t, rfl, ht⟩
    · exact .inr hcompanion
    · exact .inl ⟨t, head, rfl, ht⟩
  · rcases hnamed with ⟨rfl, -⟩ | ⟨t, rfl, ht, -⟩
    · exact hrun
    · exact .append (.plain (by rw [ht]; rfl) (by rw [ht]; rfl)) hrun

/-! ## Members that are passed -/

/-- Where a member goes on there is neither a brace that closes nor another bracket that does. -/
theorem passes_memberPart : Passes false true
    (fun c => c.kind ≠ .rightBrace ∧ ¬(c.kind = .rightParen || c.kind = .rightBracket) = true) skipOne :=
  passes_skipOne (fun _ _ _ => rfl) fun c h hclosing => by
    generalize c.kind = k at *
    cases k <;> simp_all [TokenKind.isClosing]

/-- Among members only whole groups are passed, if nothing in them is an error. -/
theorem leads_skipMemberFrom {first : Bool} {c c' : Cursor} (hc : c.Sound) (h : skipMemberFrom first c = ([], c')) :
    c.Leads false true c' := by
  fun_induction skipMemberFrom first c generalizing c' with
  | case1 | case2 | case4 =>
    cases h
    exact .refl
  | case3 first c hkind =>
    cases h
    exact leads_advance (by rw [hkind]; rfl) (by rw [hkind]; rfl)
  | case5 | case6 => cases h
  | case7 first c hmember _ c₁ hstep hless hend hbrace hsemicolon hclosing ih =>
    have hlead := passes_memberPart c hc ⟨hbrace, hclosing⟩ () c₁ hstep
    exact hlead.trans (ih (hlead.sound hc) h)
  | case8 first c hmember _ c₁ hstep hless hend hbrace hsemicolon hclosing =>
    cases h
    exact passes_memberPart c hc ⟨hbrace, hclosing⟩ () _ hstep

theorem size_skipOne_lt {c c' : Cursor} (hc : c.Sound) (hend : c.kind ≠ .eof) (hok : skipOne c = .ok () c') :
    c'.size < c.size := by
  have hless := size_advance_lt hc hend
  unfold skipOne at hok
  split at hok
  · obtain ⟨opening, c₁, hnext, hok⟩ := bind_eq_ok.mp hok
    cases hnext
    cases hpair : c.peek.kind.closing? with
    | none =>
    rw [hpair] at hok
    cases hok
    | some due =>
      simp only [hpair, closeGroups] at hok
      cases hending : (groupReach [due] c.advance.rest).ending <;>
        simp only [hending, EStateM.Result.ok.injEq, true_and, reduceCtorEq] at hok
      rw [← hok, size_skip]
      omega
  · cases hok
    exact hless

/-- A member that is passed without an error has a token, unless the members end where it begins. -/
theorem size_skipMember_lt {c c' : Cursor} (hc : c.Sound) (hend : c.kind ≠ .eof) (hbrace : c.kind ≠ .rightBrace)
    (h : skipMember c = ([], c')) : c'.size < c.size := by
  unfold skipMember at h
  generalize hfirst : true = first at h
  fun_induction skipMemberFrom first c generalizing c' with
  | case1 first c hkind => exact absurd hkind hend
  | case2 first c hkind => exact absurd hkind hbrace
  | case3 =>
    cases h
    exact size_advance_lt hc hend
  | case4 first c hmember =>
    subst hfirst
    simp at hmember
  | case5 | case6 => cases h
  | case7 first c hmember _ c₁ hstep hless hend hbrace hsemicolon hclosing =>
    have hlead := passes_memberPart c hc ⟨hbrace, hclosing⟩ () c₁ hstep
    exact Nat.lt_of_le_of_lt (leads_skipMemberFrom (hlead.sound hc) h).size_le hless
  | case8 first c hmember _ c₁ hstep hless hend => exact absurd (size_skipOne_lt hc hend hstep) hless

end TokenParser

end ServiceCatalog
