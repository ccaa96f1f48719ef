import ServiceCatalog.Proofs.Parse.FileInsertion

/-!
# Functions and properties that are passed

A function or a property has no mark at its end.  It is passed up to where the next member begins if nothing in it
looks like the beginning of a member, brackets and what is in them apart (`IsMember`).  Wherever such tokens are
inserted between members, they are passed (`IsMember.inserts`).
-/

namespace ServiceCatalog

open TokenParser

/-! ## The tokens of a function or a property -/

/-- The kinds of tokens that members begin with, and the mark they may end with. -/
def headKinds : List TokenKind := [.semicolon, .at, .class, .interface, .object, .fun, .val, .var, .typealias]

/-- Whether tokens may stand in a function or a property behind its keyword: outside of brackets, no member begins with
any of them, and all brackets are matched. -/
inductive IsMemberRest : List Token → Prop
  | nil : IsMemberRest []
  | single {t : Token} {ts : List Token} (hkind : t.kind.isSingle = true) (hhead : t.kind ∉ headKinds)
      (hword : t.kind = .identifier → isModifier t.lexeme = false) (hts : IsMemberRest ts) : IsMemberRest (t :: ts)
  | group {opening closing : Token} {inner ts : List Token} (hpair : opening.kind.closing? = some closing.kind)
      (hinner : Run false true inner) (hts : IsMemberRest ts) : IsMemberRest (opening :: (inner ++ closing :: ts))

/-- Whether tokens are those of a function or a property. -/
structure IsMember (ts : List Token) : Prop where
  keyword : ∃ t rest, ts = t :: rest ∧ t.kind ∈ [TokenKind.fun, .val, .var] ∧ IsMemberRest rest
  last : ∀ t, ts.getLast? = some t → t.kind ≠ .dot ∧ t.kind ≠ .colonColon

namespace IsMemberRest

variable {ts rest : List Token} {c : Cursor}

/-- A token or a group at which no member begins or ends is passed. -/
theorem skipMemberFrom_of_head {d : Cursor} (hend : c.kind ∉ TokenKind.eof :: headKinds) (hclosing : c.kind.isClosing = false)
    (hword : c.kind = .identifier → isModifier c.peek.lexeme = false) (hone : skipOne c = .ok () d)
    (hless : d.size < c.size) : skipMemberFrom false c = skipMemberFrom false d := by
  have hmember : c.isAtMember = false := by
    unfold Cursor.isAtMember
    split
    case h_10 => rfl
    all_goals first
      | (next hkind =>
          rw [hword hkind, Bool.and_false, Bool.false_and])
      | (next hkind => exact absurd (hkind ▸ hend) (by decide))
  refine skipMemberFrom_of_skipOne (fun hmem => ?_) (by rw [hmember]; rfl) hone hless
  have hall : ∀ k ∈ [TokenKind.eof, .rightBrace, .semicolon, .rightParen, .rightBracket],
      k ∈ TokenKind.eof :: headKinds ∨ k.isClosing = true := by decide
  rcases hall _ hmem with hmem | hclosing'
  · exact hend hmem
  · rw [hclosing] at hclosing'
    contradiction

/-- What is in front of other tokens of a member is passed. -/
theorem skipMemberFrom_eq (h : IsMemberRest ts) (hrest : c.rest = ts ++ rest) :
    skipMemberFrom false c = skipMemberFrom false (c.skip ts.length) := by
  induction h generalizing c with
  | nil => rfl
  | @single t ts hkind hhead hword _ ih =>
    obtain ⟨hopening, hclosing, hend⟩ := TokenKind.isSingle_iff.mp hkind
    have hpeek : c.peek = t := by rw [Cursor.peek, Cursor.peekNth, hrest]; rfl
    have hone : skipOne c = .ok () c.advance := by
      unfold skipOne
      rw [Cursor.kind, hpeek, hopening]
      rfl
    have hadvance : c.advance.rest = ts ++ rest := by simp [Cursor.advance, hrest]
    have hstep := skipMemberFrom_of_head (c := c)
      (by rw [Cursor.kind, hpeek, List.mem_cons, not_or]; exact ⟨hend, hhead⟩) (by rw [Cursor.kind, hpeek, hclosing])
      (by rw [Cursor.kind, hpeek]; exact hword) hone (by simp [Cursor.size, hadvance, hrest])
    rw [hstep, ih hadvance, Cursor.advance_eq_skip, Cursor.skip_skip, List.length_cons, Nat.add_comm 1]
  | @group opening closing inner ts hpair hinner _ ih =>
    have hpeek : c.peek = opening := by rw [Cursor.peek, Cursor.peekNth, hrest]; rfl
    have hpair' : c.kind.closing? = some closing.kind := by rw [Cursor.kind, hpeek, hpair]
    have hopening : c.kind.isOpening = true := TokenKind.isOpening_iff.mpr ⟨_, hpair'⟩
    have hadvance : c.advance.rest = inner ++ closing :: (ts ++ rest) := by simp [Cursor.advance, hrest]
    have hone : skipOne c = .ok () (c.skip (inner.length + 2)) := by
      have hgroup := skipGroup_of_run hpair' hadvance hinner rfl
      unfold skipOne
      rw [if_pos hopening, hgroup, Cursor.advance_eq_skip c, Cursor.advance_eq_skip, Cursor.skip_skip, Cursor.skip_skip]
      congr 2
      omega
    have hbehind : (c.skip (inner.length + 2)).rest = ts ++ rest := by
      have hsplit : c.rest = (opening :: (inner ++ [closing])) ++ (ts ++ rest) := by simp [hrest]
      have hlength : (opening :: (inner ++ [closing])).length = inner.length + 2 := by simp
      rw [Cursor.skip, hsplit, ← hlength, List.drop_left]
    have hstep := skipMemberFrom_of_head (c := c) (d := c.skip (inner.length + 2)) (fun hmem => ?_)
      (TokenKind.not_isClosing_of_closing? hpair') (fun hkind => ?_) hone (by simp [Cursor.size, hbehind, hrest]; omega)
    · rw [hstep, ih hbehind, Cursor.skip_skip]
      congr 2
      simp only [List.length_cons, List.length_append]
      omega
    · have hall : ∀ k ∈ TokenKind.eof :: headKinds, k.isOpening = false := by decide
      rw [hall _ hmem] at hopening
      contradiction
    · rw [hkind] at hopening
      contradiction

/-- Behind the keyword of a function no interface stands. -/
theorem kind_head_ne (h : IsMemberRest ts) {t : Token} (ht : ts.head? = some t) : t.kind ≠ .interface := by
  cases h with
  | nil => contradiction
  | single _ hhead =>
    cases ht
    exact fun hkind => hhead (by rw [hkind]; decide)
  | group hpair =>
    cases ht
    exact fun hkind => by
      rw [hkind] at hpair
      contradiction

/-- Tokens that read the same may stand there too. -/
theorem sameText {ts' : List Token} (h : IsMemberRest ts) (hsame : List.Forall₂ Token.SameText ts ts') :
    IsMemberRest ts' := by
  induction h generalizing ts' with
  | nil =>
    cases hsame
    exact .nil
  | single hkind hhead hword _ ih =>
    obtain ⟨t', us', ht, hus, rfl⟩ := List.forall₂_cons_left_iff.mp hsame
    exact .single (ht.kind ▸ hkind) (ht.kind ▸ hhead) (by rw [ht.kind, ht.lexeme]; exact hword) (ih hus)
  | group hpair hinner _ ih =>
    obtain ⟨opening', inner', closing', ts', rfl, hopening, hinner', hclosing, hts⟩ := Seam.forall₂_group hsame
    exact .group (by rw [hopening.kind, hclosing.kind, hpair]) (hinner.sameText hinner') (ih hts)

end IsMemberRest

namespace IsMember

variable {ts rest : List Token} {c : Cursor}

/-- A function or a property is passed up to the place where a member begins or a body ends. -/
theorem skipMember_eq (h : IsMember ts) (hrest : c.rest = ts ++ rest)
    (hend : (c.skip ts.length).isAtMember = true ∨ (c.skip ts.length).kind = .rightBrace) :
    skipMember c = ([], c.skip ts.length) := by
  obtain ⟨t, us, rfl, hkind, hus⟩ := h.keyword
  have hpeek : c.peek = t := by rw [Cursor.peek, Cursor.peekNth, hrest]; rfl
  have hadvance : c.advance.rest = us ++ rest := by simp [Cursor.advance, hrest]
  have hall : ∀ k ∈ [TokenKind.fun, .val, .var], k.isOpening = false ∧
      k ∉ [TokenKind.eof, .rightBrace, .semicolon, .rightParen, .rightBracket] := by decide
  have hone : skipOne c = .ok () c.advance := by
    unfold skipOne
    rw [Cursor.kind, hpeek, (hall _ hkind).1]
    rfl
  have hstep : skipMemberFrom true c = skipMemberFrom false c.advance :=
    skipMemberFrom_of_skipOne (by rw [Cursor.kind, hpeek]; exact (hall _ hkind).2) rfl hone
      (by simp [Cursor.size, hadvance, hrest])
  have hskip : c.advance.skip us.length = c.skip (t :: us).length := by
    rw [Cursor.advance_eq_skip, Cursor.skip_skip, List.length_cons, Nat.add_comm 1]
  rw [skipMember, hstep, hus.skipMemberFrom_eq hadvance, hskip]
  rcases hend with hmember | hbrace
  · exact skipMemberFrom_of_isAtMember hmember
  · exact skipMemberFrom_of_end (.inr hbrace) false

/-- Tokens that read the same as those of a function or a property are those of one. -/
theorem sameText {ts' : List Token} (h : IsMember ts) (hsame : List.Forall₂ Token.SameText ts ts') : IsMember ts' := by
  obtain ⟨t, us, rfl, hkind, hus⟩ := h.keyword
  obtain ⟨t', us', ht, hsame', rfl⟩ := List.forall₂_cons_left_iff.mp hsame
  refine ⟨⟨t', us', rfl, ht.kind ▸ hkind, hus.sameText hsame'⟩, fun u' hu' => ?_⟩
  -- the last tokens are the first ones of the lists in reverse
  rw [← List.head?_reverse, List.head?_eq_some_iff] at hu'
  obtain ⟨front', hfront'⟩ := hu'
  obtain ⟨u, front, hu, -, hfront⟩ := List.forall₂_cons_right_iff.mp (hfront' ▸ List.forall₂_reverse_iff.mpr hsame)
  have hlast : (t :: us).getLast? = some u := by rw [← List.head?_reverse, hfront, List.head?_cons]
  rw [hu.kind]
  exact h.last u hlast

end IsMember

/-! ## Inserting a function or a property -/

/-- The tokens of a function or a property may be inserted where a class or a type alias begins, and where a body ends,
unless a selector is in front of the place.  What is behind them begins a line. -/
theorem IsMember.inserts {ts : List Token} {q q' : Cursor} (h : IsMember ts) (hstarts : Seam.Starts q.eof q'.eof q q')
    (hplace : q.IsAtKept ∨ q.kind = .rightBrace) (hselector : q.isAfterSelector = false)
    (hprevious : q'.previous = ts.getLast?) (hline : q'.peek.newlineBefore = true) :
    Seam.Inserts ⟨false, q.rest, ts ++ q'.rest, q.eof, q'.eof⟩ q q' := by
  obtain ⟨u, vs, hts, hu, hvs⟩ := h.keyword
  have hselector' : q'.isAfterSelector = false := by
    rw [Cursor.isAfterSelector, hprevious]
    cases hlast : ts.getLast? with
    | none => rfl
    | some u =>
      have hu := h.last u hlast
      simp [hu.1, hu.2]
  have hmember : q'.isAtMember = true ∨ q'.kind = .rightBrace :=
    hplace.imp (fun hkept => (hstarts.isAtKept hkept).isAtMember hstarts.sound' hline hselector') hstarts.kind.trans
  obtain ⟨t, us, hrest, hpeek⟩ := hstarts.sound.exists_cons hstarts.goes_on
  refine ⟨?_, rfl, rfl, ⟨fun c c' hat => ?_, fun c c' hat hc hfun => ?_⟩, hselector, hstarts⟩
  · have hkind : q.kind ∈ memberKinds := by
      rcases hplace with hkept | hbrace
      · exact hkept.kind_mem.1
      · rw [hbrace]
        decide
    have hword : q.kind = .identifier → isAtModifier q = true := by
      rcases hplace with hkept | hbrace
      · exact hkept.kind_mem.2
      · intro hidentifier
        rw [hbrace] at hidentifier
        contradiction
    obtain ⟨previous, rest, eof⟩ := q
    obtain rfl : rest = t :: us := hrest
    rw [hts]
    exact .insertion hkind hword hu
  · have hskip : c'.skip ts.length = q' := by
      obtain ⟨previous', rest', eof'⟩ := c'
      obtain rfl : rest' = ts ++ q'.rest := hat.rest'
      obtain rfl : eof' = q'.eof := hat.eof'
      obtain ⟨previous, rest, eof⟩ := q'
      obtain rfl : previous = ts.getLast? := hprevious
      have hlast : ts.getLast?.or previous' = ts.getLast? := by
        rw [hts, List.getLast?_cons]
        rfl
      simp only [Cursor.skip, List.take_left, List.drop_left, hlast]
    rw [h.skipMember_eq hat.rest' (by rw [hskip]; exact hmember), hskip]
  · obtain ⟨previous', rest', eof'⟩ := c'
    obtain rfl : rest' = ts ++ q'.rest := hat.rest'
    subst hts
    cases vs with
    | nil =>
      -- the second token is the one behind what is inserted
      have hckind : c.kind = q.kind := by
        rw [Cursor.kind, Cursor.kind, Cursor.peek, Cursor.peek, Cursor.peekNth, Cursor.peekNth, hat.rest, hrest]
        rfl
      obtain ⟨t', us', hrest', hpeek'⟩ := hstarts.sound'.exists_cons (hstarts.kind.trans_ne hstarts.goes_on)
      have hsecond : (⟨previous', [u] ++ q'.rest, eof'⟩ : Cursor).secondKind = q'.kind := by
        rw [hrest', Cursor.kind, hpeek']
        rfl
      rw [hsecond, hstarts.kind, ← hckind]
      exact hc
    | cons v vs => exact hvs.kind_head_ne rfl

end ServiceCatalog
