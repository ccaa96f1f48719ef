import ServiceCatalog.Proofs.Parse.AcrossMembers

/-!
# Places between members

A member that is kept is a class or a type alias, with the annotations and modifiers in front of it.  Members may be
inserted where one begins (`Cursor.IsAtKept`), and in front of the brace at the end of a body.  `Boundary` says that a
cursor is such a place among the members that are read between two others, or in the body of one of them.
-/

namespace ServiceCatalog

open TokenParser

/-! ## Places between members -/

/-- Whether a class or a type alias begins at a cursor, with its annotations and modifiers. -/
def Cursor.IsAtKept (c : Cursor) : Prop :=
  ∃ before c₁, preamble c = .ok before c₁ ∧ (c₁.kind = .typealias ∨ (classKind? before.modifiers c₁).isSome = true)

/-- Whether a cursor stands where a class or a type alias begins among the members read between two others, or among
those in the body of a class, or where a body ends. -/
inductive Boundary (q : Cursor) : Cursor → List Member → Cursor → Prop
  | front {c k : Cursor} {ms others : List Member} (hfront : Reads c ms q) (hkept : q.IsAtKept)
      (hothers : Reads q others k) : Boundary q c (ms ++ others) k
  | back {c : Cursor} {ms : List Member} (hfront : Reads c ms q) (hclose : q.kind = .rightBrace) : Boundary q c ms q
  | inside {c c₁ c₂ c₃ k : Cursor} {as : List AnnotationUse} {kind : ClassKind} {name : Ident} {ts : List TypeRef}
      {ms inner others : List Member} (hfront : Reads c ms c₁) (hhead : ReadsHead c₁ as kind name ts c₂)
      (hbrace : c₂.kind = .leftBrace) (hinner : Boundary q c₂.advance inner c₃) (hclose : c₃.kind = .rightBrace)
      (hothers : Reads c₃.advance others k) : Boundary q c (ms ++ .class ⟨kind, name, as, ts,
        inner.filterMap Member.class?, c₃.advance.spanFrom c₁.peek.span⟩ :: others) k

namespace Boundary

variable {q c k : Cursor} {ms : List Member}

/-- What is read around a place is read. -/
theorem reads (h : Boundary q c ms k) : Reads c ms k := by
  induction h with
  | front hfront _ hothers => exact hfront.append hothers
  | back hfront => exact hfront
  | inside hfront hhead hbrace _ hclose hothers ihinner =>
    exact hfront.append (.embodied hhead hbrace ihinner hclose hothers)

theorem precedes (h : Boundary q c ms k) (hc : c.Sound) : c.Precedes q := by
  induction h with
  | front hfront | back hfront => exact hfront.precedes hc
  | inside hfront hhead _ _ _ _ ihinner =>
    have hmoves := hfront.precedes hc
    have hopening := (hmoves.trans (hhead.precedes (hmoves.sound hc))).trans .advance
    exact hopening.trans (ihinner (hopening.sound hc))

end Boundary

/-! ## What begins with a member that is kept -/

/-- The keywords of classes and type aliases. -/
def keptKinds : List TokenKind := [.class, .interface, .object, .fun, .typealias]

theorem kind_of_classKind? {modifiers : List String} {c : Cursor} (h : (classKind? modifiers c).isSome = true) :
    c.kind ∈ keptKinds := by
  unfold classKind? at h
  split at h <;> first | (rw [‹c.kind = _›]; decide) | contradiction

theorem kind_of_kept {modifiers : List String} {c : Cursor}
    (h : c.kind = .typealias ∨ (classKind? modifiers c).isSome = true) : c.kind ∈ keptKinds := by
  rcases h with h | h
  · rw [h]
    decide
  · exact kind_of_classKind? h

/-- Behind annotations and modifiers there are more of them, or what they belong to. -/
theorem kind_of_preambleItems {c c₁ : Cursor} {items : List Preamble}
    (h : manyWhile (fun c => c.isAt .at || isAtModifier c) preambleItem c = .ok items c₁) :
    c.kind ∈ [TokenKind.at, .identifier] ∨ c₁ = c := by
  rw [manyWhile] at h
  split at h
  · next htest =>
    rw [Bool.or_eq_true] at htest
    rcases htest with hat | hmodifier
    · exact .inl (by rw [Cursor.isAt_iff.mp hat]; decide)
    · exact .inl (by rw [Cursor.isAt_iff.mp (kind_of_isAtModifier hmodifier)]; decide)
  · cases h
    exact .inr rfl

namespace Cursor.IsAtKept

variable {c : Cursor}

/-- A class or a type alias begins with an annotation, with a modifier or with its keyword. -/
theorem cases (h : c.IsAtKept) : c.kind = .at ∨
    isAtModifier c = true ∧ (c.Sound → c.secondKind ∈ [.at, .identifier] ++ keptKinds) ∨
    c.kind ∈ keptKinds ∧ (c.kind = .typealias ∨ (classKind? [] c).isSome = true) := by
  obtain ⟨before, c₁, hbefore, hkept⟩ := h
  cases hat : c.isAt .at with
  | true => exact .inl (Cursor.isAt_iff.mp hat)
  | false =>
    cases hmodifier : isAtModifier c with
    | false =>
      rw [preamble_of_not (by rw [hat, hmodifier]; rfl)] at hbefore
      cases hbefore
      exact .inr (.inr ⟨kind_of_kept hkept, hkept⟩)
    | true =>
      refine .inr (.inl ⟨rfl, fun hc => ?_⟩)
      have hkind := Cursor.isAt_iff.mp (kind_of_isAtModifier hmodifier)
      have hend : c.kind ≠ .eof := by rw [hkind]; nofun
      rw [← Cursor.kind_advance hc hend]
      obtain ⟨items, c₂, hitems, hpure⟩ := bind_eq_ok.mp hbefore
      cases hpure
      have hitem : preambleItem c = .ok ⟨[], [c.peek.lexeme]⟩ c.advance := by
        show (if c.isAt .at = true then _ else _ : TokenParser Preamble) c = _
        rw [hat]
        rfl
      rw [manyWhile, if_pos (by rw [hmodifier, Bool.or_true]), hitem] at hitems
      simp only [if_pos (Cursor.size_advance_lt hc hend)] at hitems
      cases hothers : manyWhile (fun c => c.isAt .at || isAtModifier c) preambleItem c.advance with
      | error e d =>
        rw [hothers] at hitems
        contradiction
      | ok others d =>
        rw [hothers] at hitems
        cases hitems
        rw [List.mem_append]
        rcases kind_of_preambleItems hothers with hkind | heq
        · exact .inl hkind
        · exact .inr (heq ▸ kind_of_kept hkept)

/-- A class or a type alias begins a member if it begins at the beginning of a line, and not behind a selector. -/
theorem isAtMember (h : c.IsAtKept) (hc : c.Sound) (hline : c.peek.newlineBefore = true)
    (hselector : c.isAfterSelector = false) : c.isAtMember = true := by
  rcases h.cases with hkind | ⟨hmodifier, hsecond⟩ | ⟨hkind, hkept⟩
  · simp only [Cursor.isAtMember, hkind, hline]
  · have hfollows : followsModifier c.secondKind = true := by
      have hall : ∀ k ∈ [TokenKind.at, .identifier] ++ keptKinds, followsModifier k = true := by decide
      exact hall _ (hsecond hc)
    have hkind := Cursor.isAt_iff.mp (kind_of_isAtModifier hmodifier)
    simp only [Cursor.isAtMember, hkind, hline, isModifier_of_isAtModifier hmodifier, hfollows, Bool.and_self]
  · simp only [keptKinds, List.mem_cons, List.not_mem_nil, or_false] at hkind
    rcases hkind with hkind | hkind | hkind | hkind | hkind
    · simp [Cursor.isAtMember, hkind, hselector]
    · simp [Cursor.isAtMember, hkind, hselector]
    · simpa [Cursor.isAtMember, classKind?, hkind, hselector] using hkept
    · simp [Cursor.isAtMember, hkind, hselector]
    · simp [Cursor.isAtMember, hkind, hselector]

/-- What a class or a type alias begins with may begin a member. -/
theorem kind_mem (h : c.IsAtKept) : c.kind ∈ memberKinds ∧ (c.kind = .identifier → isAtModifier c = true) := by
  rcases h.cases with hkind | ⟨hmodifier, -⟩ | ⟨hkind, -⟩
  · exact ⟨by rw [hkind]; decide, fun h => by rw [hkind] at h; contradiction⟩
  · exact ⟨by rw [Cursor.isAt_iff.mp (kind_of_isAtModifier hmodifier)]; decide, fun _ => hmodifier⟩
  · have hall : ∀ k ∈ keptKinds, k ∈ memberKinds ∧ k ≠ .identifier := by decide
    exact ⟨(hall _ hkind).1, fun h => absurd h (hall _ hkind).2⟩

theorem not_semicolon (h : c.IsAtKept) : c.kind ≠ .semicolon := ne_of_mem_of_not_mem h.kind_mem.1 (by decide)

/-- Behind its annotations and modifiers its keyword stands. -/
theorem keyword {before : Preamble} {c₁ : Cursor} (h : c.IsAtKept) (hbefore : preamble c = .ok before c₁) :
    c₁.kind = .typealias ∨ (classKind? before.modifiers c₁).isSome = true := by
  obtain ⟨before', c₁', hbefore', hkept⟩ := h
  rw [hbefore] at hbefore'
  cases hbefore'
  exact hkept

theorem not_brace (h : c.IsAtKept) : c.kind ≠ .rightBrace := by
  rcases h.cases with hkind | ⟨hmodifier, -⟩ | ⟨hkind, -⟩
  · rw [hkind]
    nofun
  · rw [Cursor.isAt_iff.mp (kind_of_isAtModifier hmodifier)]
    nofun
  · exact ne_of_mem_of_not_mem hkind (by decide)

end Cursor.IsAtKept

/-- Behind a dot or two colons a selector stands. -/
theorem Cursor.isAfterSelector_advance {c : Cursor} (hc : c.Sound) (hend : c.kind ≠ .eof) :
    c.advance.isAfterSelector = (c.kind == .dot || c.kind == .colonColon) := by
  obtain ⟨t, ts, hrest, hpeek⟩ := hc.exists_cons hend
  rw [← hpeek] at hrest
  simp only [Cursor.isAfterSelector, Cursor.advance, hrest]
  rfl

end ServiceCatalog
