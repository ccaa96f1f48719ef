import ServiceCatalog.Proofs.Parse.AcrossValues
import ServiceCatalog.Proofs.Parse.Progress

/-!
# Headers and heads in front of a seam
-/

namespace ServiceCatalog

namespace TokenParser

open Cursor Seam

theorem classNaming_eq (kind : ClassKind) : classNaming kind = (do
    let _ ← eat .fun
    let keyword ← next
    if ← test (fun c => kind != .companionObject || c.isAt .identifier) then identifier
    else return ⟨"Companion", keyword.span⟩) := by
  unfold classNaming
  refine congrArg (eat .fun >>= ·) (funext fun _ => congrArg (next >>= ·) (funext fun keyword => ?_))
  funext c
  rw [bind_eq_match, bind_eq_match]
  simp only [test]
  cases kind <;> cases c.isAt .identifier <;> rfl

theorem classKind?_congr (modifiers : List String) {c c' : Cursor} (hkind : c'.kind = c.kind)
    (hsecond : c'.secondKind = c.secondKind) : classKind? modifiers c' = classKind? modifiers c := by
  rw [classKind?, classKind?, hkind, hsecond]

/-- In front of a function or a property a class of another kind begins only where the second token would tell it. -/
theorem classKind?_of_secondKind (modifiers : List String) {c c' : Cursor} (hkind : c'.kind = c.kind)
    (hsecond : c'.secondKind ∈ [TokenKind.fun, .val, .var]) : classKind? modifiers c' = classKind? modifiers c ∨
      ∃ kind, classKind? modifiers c = some kind ∧ kind ≠ .companionObject := by
  have hne : ∀ {k : TokenKind}, k ∉ [TokenKind.fun, .val, .var] → c'.secondKind ≠ k := fun hk =>
    ne_of_mem_of_not_mem hsecond hk
  unfold classKind?
  rw [hkind]
  split
  · exact .inl rfl
  · exact .inl rfl
  · rw [if_neg (hne (by decide))]
    split
    · exact .inr ⟨_, rfl, nofun⟩
    · exact .inl rfl
  · split
    · exact .inl rfl
    · rw [if_neg (hne (by decide))]
      split
      · exact .inr ⟨_, rfl, nofun⟩
      · exact .inl rfl
  · exact .inl rfl

/-- A class that is no companion object has a keyword and a name. -/
theorem size_classHead {modifiers : List String} {kind : ClassKind} {c k : Cursor} {r : Ident × List TypeRef}
    (hc : c.Sound) (hclass : classKind? modifiers c = some kind) (hkind : kind ≠ .companionObject)
    (hok : classHead kind c = .ok r k) : k.size + 2 ≤ c.size := by
  obtain ⟨name, ts⟩ := r
  obtain ⟨before, keyword, head, hrest, -, -, -, hnaming, -⟩ := classHead_ok hc hclass hok
  rcases hnaming with ⟨t, ts, rfl, -⟩ | ⟨hcompanion, -⟩
  · rw [size, size, hrest]
    simp only [List.length_append, List.length_cons]
    omega
  · exact absurd hcompanion hkind

/-- A class has a keyword. -/
theorem size_classHead_lt {modifiers : List String} {kind : ClassKind} {c k : Cursor} {r : Ident × List TypeRef}
    (hc : c.Sound) (hclass : classKind? modifiers c = some kind) (hok : classHead kind c = .ok r k) : k.size < c.size := by
  obtain ⟨name, ts⟩ := r
  obtain ⟨before, keyword, head, hrest, -⟩ := classHead_ok hc hclass hok
  rw [size, size, hrest]
  simp only [List.length_append, List.length_cons]
  omega

/-- Where neither an annotation nor a modifier comes next, none is read. -/
theorem preamble_of_not {c : Cursor} (h : (c.isAt .at || isAtModifier c) = false) : preamble c = .ok ⟨[], []⟩ c := by
  unfold preamble
  refine (bind_eq_match _ _ c).trans ?_
  rw [manyWhile, h]
  rfl

theorem preamble_of_kind {c : Cursor} (h : c.kind ∉ [TokenKind.at, .identifier]) : preamble c = .ok ⟨[], []⟩ c := by
  simp only [List.mem_cons, List.not_mem_nil, or_false, not_or] at h
  exact preamble_of_not (by simp [isAtModifier, Cursor.isAt, h.1, h.2])

theorem parts_of_unplaced {before before' : Preamble} (h : unplaced before' = unplaced before) :
    unplaced before'.annotations = unplaced before.annotations ∧ before'.modifiers = before.modifiers := by
  have hannotations : (unplaced before').annotations = (unplaced before).annotations := congrArg _ h
  have hmodifiers : (unplaced before').modifiers = (unplaced before).modifiers := congrArg _ h
  exact ⟨hannotations, hmodifiers⟩

section Headers

variable {s : Seam} (hs : s.Sound) {P : Cursor → Prop}

/-! ## Headers -/

theorem unplaced_path_mk {segments segments' : List Ident} {span span' : Span}
    (h : unplaced segments' = unplaced segments) :
    unplaced (⟨segments', span'⟩ : Path) = unplaced ⟨segments, span⟩ :=
  congrArg (Path.mk · default) h

theorem unplaced_import {path path' : Path} {isWildcard : Bool} {localName localName' : Option Ident} {span span' : Span}
    (hpath : unplaced path' = unplaced path) (hlocal : unplaced localName' = unplaced localName) :
    unplaced (⟨path', isWildcard, localName', span'⟩ : Import) = unplaced ⟨path, isWildcard, localName, span⟩ :=
  congrArg₂ (Import.mk · isWildcard · default) hpath hlocal

include hs in
/-- In front of a seam, whether a modifier comes next is the same in both files. -/
theorem isAtModifier_of_before {c c' : Cursor} (hbefore : s.Before c c') : isAtModifier c' = isAtModifier c := by
  have hkind : c'.kind = c.kind := hbefore.same.kind
  unfold isAtModifier
  rw [isAt, isAt, hkind, hbefore.same.lexeme]
  cases hat : c.kind == .identifier with
  | false => rfl
  | true =>
    have hsecond : ∀ k, s.Apart k → (c'.secondKind == k) = (c.secondKind == k) := fun k hk =>
      hbefore.secondIs hs (by rw [beq_iff_eq.mp hat]; rfl) hk
    rw [bne, bne, bne, bne, hsecond .equal (.inr (by decide)), hsecond .colon (.inr (by decide))]

namespace Follows

include hs

theorem path : Follows s P TokenParser.path TokenParser.path := by
  unfold TokenParser.path
  refine .bind .nextSpan fun _ _ _ => .bind (.identifier hs) fun first first' hfirst => ?_
  refine .bind (dotIdentifiers hs) fun others others' hothers => .bind (.spanFrom _ _) fun _ _ _ => .pure ?_
  exact unplaced_path_mk (congrArg₂ List.cons hfirst hothers)

theorem packageHeader : Follows s P TokenParser.packageHeader TokenParser.packageHeader := by
  unfold TokenParser.packageHeader
  refine .bind (.expect hs rfl) fun _ _ _ => .bind (path hs) fun path path' hpath => ?_
  exact .bind (.eat hs rfl (.inr (by decide))) fun _ _ _ => .pure hpath

theorem importAlias : Follows s P TokenParser.importAlias TokenParser.importAlias := by
  unfold TokenParser.importAlias
  refine .bind (.eat hs rfl (.inr (by decide))) fun found found' hfound => ?_
  obtain rfl : found' = found := hfound
  refine .ite ?_ (.pure rfl)
  rw [map_eq_pure_bind]
  exact .bind (.identifier hs) fun _ _ h => .pure (congrArg some h)

theorem importRest (mark mark' start start' : Span) {first first' : Ident} (hfirst : unplaced first' = unplaced first) :
    Follows s P (TokenParser.importRest mark start first) (TokenParser.importRest mark' start' first') := by
  unfold TokenParser.importRest
  have hdot : ∀ c : Cursor, (c.isAt .dot && c.secondKind != .star) = true → c.isAt .dot = true := fun c h =>
    (Bool.and_eq_true _ _ ▸ h).1
  have hturn : Follows s (fun c => (c.isAt .dot && c.secondKind != .star) = true) dotIdentifier dotIdentifier :=
    .bind (.next hs fun c h => isAt_iff.mp (hdot c h) ▸ rfl) fun _ _ _ => .identifier hs
  have hmany : Follows s P (TokenParser.manyWhile (fun c => c.isAt .dot && c.secondKind != .star) dotIdentifier)
      (TokenParser.manyWhile (fun c => c.isAt .dot && c.secondKind != .star) dotIdentifier) := by
    refine .manyWhile (.of_eq fun c c' hnear _ => ?_) hturn
    have hfirst : c'.isAt .dot = c.isAt .dot := hnear.isAt hs (.inr (by decide))
    rw [hfirst]
    cases hat : c.isAt .dot with
    | false => rfl
    | true =>
      have hbefore := hnear.before_of_kind hs (isAt_iff.mp hat) rfl (by decide)
      have hsecond : (c'.secondKind == .star) = (c.secondKind == .star) :=
        hbefore.secondIs hs (by rw [isAt_iff.mp hat]; rfl) (.inr (by decide))
      rw [bne, bne, hsecond]
  refine .bind_of (Q := fun _ c => (c.isAt .dot && c.secondKind != .star) = false) hmany (fun c hc _ as k hok => ?_)
    fun others others' hothers => ?_
  · have hpasses : Takes (Run false false) (fun c => (c.isAt .dot && c.secondKind != .star) = true) dotIdentifier :=
      .bind (.next fun c h => single_of_isAt rfl (hdot c h)) fun _ => .identifier (AdmitsTypes.of_kind rfl)
    have hless : Consumes (fun c => (c.isAt .dot && c.secondKind != .star) = true) dotIdentifier :=
      .bind (.next fun c h => ne_eof_of_isAt (hdot c h) nofun) (fun _ => .next) fun _ _ => .identifier
    exact test_of_manyWhile hpasses (fun c hc h i k hok => hless c hc h i k hok) hc hok
  -- a dot that no identifier is read behind has a star behind it
  · refine .bind_of (Q := fun found c => found = true → c.kind = .star) (.eat hs rfl (.inr (by decide)))
      (fun c hc hstop found k hok => ?_) fun found found' hfound => ?_
    · unfold TokenParser.eat at hok
      split at hok
      · next hat =>
        cases hok
        rw [kind_advance hc (by rw [isAt_iff.mp hat]; nofun)]
        simpa [hat] using hstop
      · cases hok
        exact nofun
    · obtain rfl : found' = found := hfound
      have hread : ∀ {P} (span span' : Span) (localName localName' : Option Ident),
          unplaced localName' = unplaced localName → Follows s P (do
            let _ ← TokenParser.eat .semicolon
            return (⟨⟨first :: others, span⟩, found', localName, ← TokenParser.spanFrom mark⟩ : Import)) (do
            let _ ← TokenParser.eat .semicolon
            return ⟨⟨first' :: others', span'⟩, found', localName', ← TokenParser.spanFrom mark'⟩) :=
        fun {_} _ _ _ _ hlocal => .bind (.eat hs rfl (.inr (by decide))) fun _ _ _ => .bind (.spanFrom _ _) fun _ _ _ =>
          .pure (unplaced_import (unplaced_path_mk (congrArg₂ List.cons hfirst hothers)) hlocal)
      cases found' with
      | true =>
        refine .bind (.next hs fun c h => by rw [h rfl]; rfl) fun _ _ _ => ?_
        exact .bind (.spanFrom _ _) fun span span' _ => .bind (.pure rfl) (hread span span')
      | false => exact .bind (.spanFrom _ _) fun span span' _ => .bind (importAlias hs) (hread span span')

theorem importHeader : Follows s P TokenParser.importHeader TokenParser.importHeader := by
  rw [importHeader_eq]
  exact .bind (.expect hs rfl) fun _ _ _ => .bind .nextSpan fun _ _ _ => .bind (.identifier hs) fun _ _ h =>
    importRest hs _ _ _ _ h

/-! ## Annotations and modifiers -/

theorem preambleItem : Follows s (fun c => (c.isAt .at || isAtModifier c) = true) TokenParser.preambleItem
    TokenParser.preambleItem := by
  unfold TokenParser.preambleItem
  have hannotations : Consumes (fun c => c.isAt .at = true)
      (TokenParser.annotations >>= fun as => Pure.pure (⟨as, []⟩ : Preamble)) :=
    .bind consumes_annotations forward_annotations fun _ _ => .pure _
  refine .ite_test (Decides.isAt_at hs hannotations) (.bind (annotations hs) fun as as' has => .pure ?_) ?_
  · exact congrArg (Preamble.mk · []) has
  · refine .bind (.next hs fun c h => ?_) fun t t' ht => .pure ?_
    · rw [h.2, Bool.false_or] at h
      exact isAt_iff.mp (kind_of_isAtModifier h.1) ▸ rfl
    · have hlexeme : (unplaced t').lexeme = (unplaced t).lexeme := congrArg Token.lexeme ht
      change t'.lexeme = t.lexeme at hlexeme
      rw [hlexeme]

omit hs in
theorem unplaced_flatMap {items items' : List Preamble} (h : unplaced items' = unplaced items) :
    unplaced (⟨items'.flatMap Preamble.annotations, items'.flatMap Preamble.modifiers⟩ : Preamble) =
      unplaced ⟨items.flatMap Preamble.annotations, items.flatMap Preamble.modifiers⟩ := by
  have hannotations : ∀ items : List Preamble,
      unplaced (items.flatMap Preamble.annotations) = (unplaced items).flatMap Preamble.annotations := fun items => by
    show List.map unplaced _ = (List.map unplaced items).flatMap _
    rw [List.map_flatMap, List.flatMap_map]
    rfl
  have hmodifiers : ∀ items : List Preamble,
      items.flatMap Preamble.modifiers = (unplaced items).flatMap Preamble.modifiers := fun items => by
    show _ = (List.map unplaced items).flatMap _
    rw [List.flatMap_map]
    rfl
  show Preamble.mk (unplaced _) _ = Preamble.mk (unplaced _) _
  rw [hannotations, hannotations, hmodifiers, hmodifiers items, h]

theorem preambleItems : Follows s P (TokenParser.manyWhile (fun c => c.isAt .at || isAtModifier c) TokenParser.preambleItem)
    (TokenParser.manyWhile (fun c => c.isAt .at || isAtModifier c) TokenParser.preambleItem) := by
  refine .manyWhile (.of_consumes hs (fun c h => ?_) consumes_preambleItem fun c c' hbefore _ => .inl ?_) (preambleItem hs)
  · rw [Bool.or_eq_true] at h
    rcases h with h | h
    · rw [isAt_iff.mp h]
      decide
    · rw [isAt_iff.mp (kind_of_isAtModifier h)]
      decide
  · show (c'.isAt .at || isAtModifier c') = (c.isAt .at || isAtModifier c)
    rw [isAtModifier_of_before hs hbefore, isAt, isAt, kind, kind, hbefore.same.kind]

theorem preamble : Follows s P TokenParser.preamble TokenParser.preamble :=
  .bind (preambleItems hs) fun _ _ hitems => .pure (unplaced_flatMap hitems)

/-! ## Names and type parameters -/

omit hs in
theorem ne_eof_of_angleDepth {depth depth' : ℕ} {k : TokenKind} (h : angleDepth depth k = some depth') : k ≠ .eof := by
  rintro rfl
  contradiction

omit hs in
theorem isSingle_keyword (kind : ClassKind) : kind.keyword.isSingle = true := by
  cases kind <;> rfl

/-- The name of a class behind its keyword. -/
theorem nameBehind (kind : ClassKind) (keyword keyword' : Token) : Follows s P (do
      if ← test (fun c => kind != .companionObject || c.isAt .identifier) then TokenParser.identifier
      else return ⟨"Companion", keyword.span⟩) (do
      if ← test (fun c => kind != .companionObject || c.isAt .identifier) then TokenParser.identifier
      else return ⟨"Companion", keyword'.span⟩) := by
  refine .ite_test ?_ (.identifier hs) (.pure rfl)
  cases kind with
  | companionObject =>
    refine .of_first hs .identifier rfl (by decide) (fun c h => isAt_iff.mp h) .identifier fun c c' hbefore _ _ => .inl ?_
    exact congrArg (· == TokenKind.identifier) hbefore.same.kind
  | _ => exact .of_eq fun _ _ _ _ => rfl

theorem classNaming {modifiers : List String} {kind : ClassKind} :
    Follows s (fun c => classKind? modifiers c = some kind ∧ s.rest.length < c.size) (TokenParser.classNaming kind)
      (TokenParser.classNaming kind) := by
  rw [classNaming_eq]
  refine .bind_of (Q := fun _ c => c.kind = kind.keyword) (.eat_of hs rfl fun c c' hnear hc => ?_)
    (fun c hc hpre found k hok => ?_) fun _ _ _ => .bind (.next hs fun c h => ?_) fun keyword keyword' _ =>
      nameBehind hs kind keyword keyword'
  · rw [isAt, isAt, Cursor.kind, Cursor.kind, (before_of_length_lt hnear hc.2).same.kind]
  · obtain ⟨-, before, -, -, -, hkeyword⟩ := eat_fun_ok hc hpre.1 hok
    exact hkeyword
  · rw [h]
    exact isSingle_keyword kind

theorem closeAngles (hopen : s.isClosed = false) {opening opening' : Span} {depth : ℕ} :
    Follows s P (TokenParser.closeAngles opening depth) (TokenParser.closeAngles opening' depth) := by
  refine ⟨fun c c' hnear hc => ⟨fun a k hok hk => ?_, fun h => by rw [hopen] at h; contradiction⟩,
    fun n => forward_closeAngles n opening depth⟩
  have hlength := hk.length_le hopen
  clear hk hc
  fun_induction TokenParser.closeAngles opening depth c generalizing c' with
  | case1 c =>
    cases hok
    exact ⟨(), c', by rw [TokenParser.closeAngles]; rfl, rfl, hnear⟩
  | case2 | case3 => contradiction
  | case4 depth c hdepth depth' hangle _ c₁ hstep hless ih =>
    have hk : k.size ≤ c₁.size := (precedes_of_ok (fun n => forward_closeAngles n opening depth')
      ((precedes_of_skipOne_eq hstep).sound hnear.sound) hok).size_le
    have hone : Follows s (fun d => d = c) TokenParser.skipOne TokenParser.skipOne :=
      skipOne hs fun d hd => ⟨by rw [hd]; exact ne_eof_of_angleDepth hangle, fun h => by rw [hopen] at h; contradiction⟩
    obtain ⟨_, c₁', hstep', -, hnear'⟩ := (hone.tracks c c' hnear rfl).ok () c₁ hstep (.inr (Nat.le_trans hlength hk))
    rcases hnear.kind hs with hkind | ⟨-, -, hsize, -⟩
    · obtain ⟨_, k', hrest', -, hnear''⟩ := ih c₁' hnear' hok
      refine ⟨(), k', ?_, rfl, hnear''⟩
      rw [TokenParser.closeAngles, if_neg hdepth, hkind, hangle, hstep']
      simp only [if_pos ((hnear.size_lt_iff hnear').mpr hless), hrest']
    · omega
  | case5 depth c hdepth depth' hangle _ c₁ hstep hless =>
    exact absurd (size_skipOne_lt hnear.sound (ne_eof_of_angleDepth hangle) hstep) hless

theorem skipAngles (hopen : s.isClosed = false) : Follows s P TokenParser.skipAngles TokenParser.skipAngles :=
  .bind (.expect hs rfl) fun _ _ _ => closeAngles hs hopen

theorem aliasTail (hopen : s.isClosed = false) (start start' : Span) {as as' : List AnnotationUse}
    (has : unplaced as' = unplaced as) (mark mark' : Token) :
    Follows s P (TokenParser.aliasTail start as mark) (TokenParser.aliasTail start' as' mark') := by
  unfold TokenParser.aliasTail
  refine .bind (.identifier hs) fun name name' hname => ?_
  have htarget : Follows s (fun c => True ∧ (!c.isAt .equal) = false) (do
      let _ ← TokenParser.next
      let target ← TokenParser.type
      return (⟨name, as, target, ← TokenParser.spanFrom start⟩ : TypeAlias)) (do
      let _ ← TokenParser.next
      let target ← TokenParser.type
      return ⟨name', as', target, ← TokenParser.spanFrom start'⟩) := by
    refine .bind (.next hs fun c h => ?_) fun _ _ _ => .bind (type hs) fun target target' ht => ?_
    · rw [Bool.not_eq_false'] at h
      exact isAt_iff.mp h.2 ▸ rfl
    · refine .bind (.spanFrom _ _) fun _ _ _ => .pure ?_
      show TypeAlias.mk _ _ _ _ = TypeAlias.mk _ _ _ _
      rw [hname, has, ht]
  have hequal : Follows s (fun _ => True) (do
      if ← test (fun c => !c.isAt .equal) then failExpecting TokenKind.equal.description
      let _ ← TokenParser.next
      let target ← TokenParser.type
      return (⟨name, as, target, ← TokenParser.spanFrom start⟩ : TypeAlias)) (do
      if ← test (fun c => !c.isAt .equal) then failExpecting TokenKind.equal.description
      let _ ← TokenParser.next
      let target ← TokenParser.type
      return ⟨name', as', target, ← TokenParser.spanFrom start'⟩) := by
    refine .ite_test (.of_eq fun _ _ hnear _ => ?_) (.failAtNext_bind _ _) htarget
    rw [hnear.isAt hs (.inr (by decide))]
  exact .ite_test (.isAt hs (.inr (by decide))) (.bind (skipAngles hs hopen) fun _ _ _ => hequal) hequal.anywhere

theorem typeAlias (hopen : s.isClosed = false) (start start' : Span) {as as' : List AnnotationUse}
    (has : unplaced as' = unplaced as) :
    Follows s P (TokenParser.typeAlias start as) (TokenParser.typeAlias start' as') := by
  rw [typeAlias_eq, typeAlias_eq]
  exact .bind (.expect hs rfl) fun _ _ _ => aliasTail hs hopen start start' has _ _

end Follows

include hs in
/-- In front of an open seam, a class of the same kind begins in both files, or of the first file one that goes beyond
the seam. -/
theorem classKind?_of_before (hopen : s.isClosed = false) {c c' : Cursor} (hnear : s.Near c c') (hbefore : s.Before c c')
    (modifiers : List String) : classKind? modifiers c' = classKind? modifiers c ∨
      ∃ kind, classKind? modifiers c = some kind ∧ ∀ r k, classHead kind c = .ok r k → k.size < s.rest.length := by
  have hkind : c'.kind = c.kind := hbefore.same.kind
  have hadvance := hbefore.advance fun h => by rw [hopen] at h; contradiction
  rcases hadvance.kind hs with heq | ⟨-, hmember, hsize, hpos⟩
  · rw [hbefore.secondKind, hbefore.secondKind'] at heq
    exact .inl (classKind?_congr modifiers hkind heq)
  · -- the second token is behind the seam
    rw [hbefore.secondKind'] at hmember
    rw [size_advance] at hsize hpos
    refine (classKind?_of_secondKind modifiers hkind hmember).imp_right ?_
    rintro ⟨kind, hclass, hcompanion⟩
    refine ⟨kind, hclass, fun r k hok => ?_⟩
    have := size_classHead hnear.sound hclass hcompanion hok
    omega

end Headers

end TokenParser

end ServiceCatalog
