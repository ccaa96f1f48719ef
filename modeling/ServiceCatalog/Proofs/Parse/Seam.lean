import Mathlib.Data.List.Forall2
import ServiceCatalog.Proofs.Parse.Calls
import ServiceCatalog.Proofs.Parse.Unplaced
import ServiceCatalog.Proofs.Token.Exchange

/-!
# Two files that are the same up to a seam

Two files have the same tokens up to a place, apart from where these stand, and go on differently from there.  A
`Seam` is such a place.  Parsers that are called in front of it at the same token do the same in both files, as long as
they do not look at what is behind the seam, or see the same there.

* A *closed* seam is in front of a bracket that closes the group the parsers are in, the same one in both files, or
  in front of the ends of both files.  No parser of types and values goes beyond it, and all of them do the same.
* At an *open* seam, a member begins or a body ends in the first file, and a function or a property begins in the
  second one.  A parser may go beyond it in the first file.  If it succeeds without doing so, it does the same in the
  second one.

`Near` says that two cursors stand at the same token in front of a seam or at it, `Follows` that a parser does the same
in both files, with answers that differ in their places only.
-/

namespace ServiceCatalog

theorem Token.Same.isAfterSelector {t t' : Token} (h : t.Same t') {ts ts' : List Token} {e e' : Token} :
    (⟨some t', ts', e'⟩ : Cursor).isAfterSelector = (⟨some t, ts, e⟩ : Cursor).isAfterSelector := by
  simp only [Cursor.isAfterSelector, h.kind]

/-- A run begins with a single token or with a group. -/
theorem Run.cons_cases {loose braces : Bool} {t : Token} {ts : List Token} (h : Run loose braces (t :: ts)) :
    t.kind.isOpening = false ∧ (t.kind.isClosing = true → loose = true) ∧ Run loose braces ts ∨
      ∃ inner closing us, ts = inner ++ closing :: us ∧ t.kind.closing? = some closing.kind ∧ Run false true inner ∧
        Run loose braces us := by
  generalize hts : t :: ts = all at h
  cases h with
  | nil => contradiction
  | single hopening hclosing hrest =>
    cases hts
    exact .inl ⟨hopening, fun h => (hclosing h).1, hrest⟩
  | @group _ _ opening closing inner us hpair hbrace hinner hrest =>
    cases hts
    exact .inr ⟨inner, closing, us, rfl, hpair, hinner, hrest⟩

/-- Whether a token is neither a bracket nor the end of the file. -/
def TokenKind.isSingle (k : TokenKind) : Bool := !k.isOpening && !k.isClosing && k != .eof

theorem TokenKind.isSingle_iff {k : TokenKind} :
    k.isSingle = true ↔ k.isOpening = false ∧ k.isClosing = false ∧ k ≠ .eof := by
  simp [isSingle, and_assoc]

theorem TokenKind.not_isClosing_of_closing? {k k' : TokenKind} (h : k.closing? = some k') : k.isClosing = false := by
  cases k <;> first | rfl | contradiction

/-- The kinds of tokens that members begin with, and the brace behind them. -/
def memberKinds : List TokenKind :=
  [.at, .identifier, .class, .interface, .object, .fun, .val, .var, .typealias, .rightBrace]

theorem TokenParser.isModifier_of_isAtModifier {c : Cursor} (h : isAtModifier c = true) :
    isModifier c.peek.lexeme = true := by
  simp only [isAtModifier, Bool.and_eq_true] at h
  exact h.1.1.2

/-- A place up to which two files are the same: what is behind it in each of them. -/
structure Seam where
  isClosed : Bool
  rest : List Token
  rest' : List Token
  eof : Token
  eof' : Token

namespace Seam

/-- Whether a seam is as one of its sort should be. -/
inductive Sound : Seam → Prop
  | closing {t t' : Token} {ts ts' : List Token} {e e' : Token} (hkind : t'.kind = t.kind)
      (hclosing : t.kind.isClosing = true) : Sound ⟨true, t :: ts, t' :: ts', e, e'⟩
  | atEnd {e e' : Token} (heof : e.kind = .eof) (heof' : e'.kind = .eof) : Sound ⟨false, [], [], e, e'⟩
  | insertion {t t' : Token} {ts ts' : List Token} {e e' : Token} (hkind : t.kind ∈ memberKinds)
      (hword : t.kind = .identifier → TokenParser.isAtModifier ⟨none, t :: ts, e⟩ = true)
      (hkind' : t'.kind ∈ [.fun, .val, .var]) :
      Sound ⟨false, t :: ts, t' :: ts', e, e'⟩

/-- Whether two cursors stand at the same token in front of a seam, or at the seam. -/
structure Near (s : Seam) (c c' : Cursor) : Prop where
  sound : c.Sound
  sound' : c'.Sound
  eof : c.eof = s.eof
  eof' : c'.eof = s.eof'
  selector : c'.isAfterSelector = c.isAfterSelector
  front : ∃ ts ts', c.rest = ts ++ s.rest ∧ c'.rest = ts' ++ s.rest' ∧ List.Forall₂ Token.Same ts ts' ∧
    (s.isClosed = true → Run false true ts)

/-- Whether two cursors stand at a seam. -/
structure AtSeam (s : Seam) (c c' : Cursor) : Prop where
  rest : c.rest = s.rest
  rest' : c'.rest = s.rest'
  eof : c.eof = s.eof
  eof' : c'.eof = s.eof'

/-- Whether two cursors stand in front of a seam. -/
structure Before (s : Seam) (c c' : Cursor) : Prop where
  same : c.peek.Same c'.peek
  ne_eof : c.kind ≠ .eof
  length_lt : s.rest.length < c.size
  not_closing : s.isClosed = true → c.kind.isClosing = false
  advance : (s.isClosed = true → c.kind.isOpening = false) → s.Near c.advance c'.advance
  secondKind : c.advance.kind = c.secondKind
  secondKind' : c'.advance.kind = c'.secondKind

variable {s : Seam} {c c' k k' : Cursor}

/-- Two cursors near a seam stand at it or in front of it. -/
theorem Near.cases (h : s.Near c c') : s.AtSeam c c' ∨ s.Before c c' := by
  obtain ⟨hsound, hsound', heof, heof', hselector, ts, ts', hrest, hrest', hsame, hrun⟩ := h
  cases hsame with
  | nil => exact .inl ⟨hrest, hrest', heof, heof'⟩
  | @cons t t' us us' ht hus =>
    obtain ⟨previous, rest, eof⟩ := c
    obtain ⟨previous', rest', eof'⟩ := c'
    subst hrest hrest'
    refine .inr ⟨ht, hsound.rest t (List.mem_cons_self ..), ?_, fun hclosed => ?_, fun hopening => ?_, rfl, rfl⟩
    · simp only [Cursor.size, List.cons_append, List.length_cons, List.length_append]
      omega
    · rcases (hrun hclosed).cons_cases with ⟨-, hclosing, -⟩ | ⟨inner, closing, us, -, hpair, -, -⟩
      · exact Bool.eq_false_iff.mpr fun h => Bool.false_ne_true (hclosing h)
      · exact TokenKind.not_isClosing_of_closing? hpair
    · refine ⟨hsound.advance, hsound'.advance, heof, heof', ht.isAfterSelector, us, us', rfl, rfl, hus, fun hclosed => ?_⟩
      rcases (hrun hclosed).cons_cases with ⟨-, -, hus⟩ | ⟨inner, closing, us, -, hpair, -, -⟩
      · exact hus
      · have hnot : t.kind.isOpening = false := hopening hclosed
        rw [TokenKind.isOpening_iff.mpr ⟨_, hpair⟩] at hnot
        contradiction

/-- What comes next at a seam, in both files. -/
theorem AtSeam.kinds (hs : s.Sound) (h : s.AtSeam c c') :
    c'.kind = c.kind ∧ (c.kind.isClosing = true ∨ c.kind = .eof) ∨
      s.isClosed = false ∧ c.kind ∈ memberKinds ∧ (c.kind = .identifier → TokenParser.isAtModifier c = true) ∧
        c'.kind ∈ [.fun, .val, .var] ∧ c.size = s.rest.length ∧ 0 < c.size := by
  obtain ⟨previous, rest, eof⟩ := c
  obtain ⟨previous', rest', eof'⟩ := c'
  obtain ⟨rfl, rfl, rfl, rfl⟩ := h
  cases hs with
  | closing hkind hclosing => exact .inl ⟨hkind, .inl hclosing⟩
  | atEnd heof heof' => exact .inl ⟨heof'.trans heof.symm, .inr heof⟩
  | insertion hkind hword hkind' => exact .inr ⟨rfl, hkind, hword, hkind', rfl, Nat.zero_lt_succ _⟩

/-- The files are as long behind two cursors that are near a seam as they are behind the seam, apart from the same
tokens. -/
theorem Near.size (h : s.Near c c') : c'.size + s.rest.length = c.size + s.rest'.length ∧ s.rest.length ≤ c.size := by
  obtain ⟨-, -, -, -, -, ts, ts', hrest, hrest', hsame, -⟩ := h
  have hlength := hsame.length_eq
  simp only [Cursor.size, hrest, hrest', List.length_append]
  omega

theorem Near.size_lt_iff (h : s.Near c c') (hk : s.Near k k') : k'.size < c'.size ↔ k.size < c.size := by
  have := h.size
  have := hk.size
  omega

/-! ## Looking at the next tokens -/

/-- Whether what comes next at a seam cannot be of a kind. -/
def Apart (s : Seam) (k : TokenKind) : Prop := s.isClosed = true ∨ k ∉ memberKinds

/-- Near a seam, the kind of the next token is the same in both files, unless a member begins there. -/
theorem Near.isAt {kind : TokenKind} (hs : s.Sound) (h : s.Near c c') (hkind : s.Apart kind) :
    c'.isAt kind = c.isAt kind := by
  rcases h.cases with hat | hbefore
  · rcases hat.kinds hs with ⟨heq, -⟩ | ⟨hopen, hmember, -, hmember', -⟩
    · rw [Cursor.isAt, Cursor.isAt, heq]
    · have hsubset : ∀ k ∈ [TokenKind.fun, .val, .var], k ∈ memberKinds := by decide
      have hnot : kind ∉ memberKinds := hkind.resolve_left (by rw [hopen]; exact Bool.false_ne_true)
      rw [Cursor.isAt, Cursor.isAt, beq_eq_false_iff_ne.mpr (ne_of_mem_of_not_mem hmember hnot),
        beq_eq_false_iff_ne.mpr (ne_of_mem_of_not_mem (hsubset _ hmember') hnot)]
  · rw [Cursor.isAt, Cursor.isAt, Cursor.kind, Cursor.kind, hbefore.same.kind]

/-- Near a seam, the next token is of the same kind in both files, or else a member begins at the seam. -/
theorem Near.kind (hs : s.Sound) (h : s.Near c c') : c'.kind = c.kind ∨
    s.isClosed = false ∧ c'.kind ∈ [.fun, .val, .var] ∧ c.size = s.rest.length ∧ 0 < c.size := by
  rcases h.cases with hat | hbefore
  · rcases hat.kinds hs with ⟨heq, -⟩ | ⟨hopen, -, -, hmember, hsize, hpos⟩
    · exact .inl heq
    · exact .inr ⟨hopen, hmember, hsize, hpos⟩
  · exact .inl hbefore.same.kind

/-- A token that is no bracket and begins no member is in front of a seam. -/
theorem Near.before_of_kind (hs : s.Sound) (h : s.Near c c') {kind : TokenKind} (hkind : c.kind = kind)
    (hsingle : kind.isSingle = true) (hmember : kind ∉ memberKinds) : s.Before c c' := by
  obtain ⟨-, hclosing, heof⟩ := TokenKind.isSingle_iff.mp (hkind ▸ hsingle)
  rcases h.cases with hat | hbefore
  · exfalso
    rcases hat.kinds hs with ⟨-, hend | hend⟩ | ⟨-, hmember', -⟩
    · rw [hclosing] at hend
      contradiction
    · exact heof hend
    · exact hmember (hkind ▸ hmember')
  · exact hbefore

/-- Behind a token in front of a seam, the kind of the next one is the same in both files, unless a member begins
there. -/
theorem Before.secondIs (hs : s.Sound) (h : s.Before c c') (hopening : c.kind.isOpening = false) {kind : TokenKind}
    (hkind : s.Apart kind) : (c'.secondKind == kind) = (c.secondKind == kind) := by
  have hnext := (h.advance fun _ => hopening).isAt hs hkind
  rwa [Cursor.isAt, Cursor.isAt, h.secondKind, h.secondKind'] at hnext

/-- A closed seam is in front of a bracket that closes. -/
theorem AtSeam.isClosing (hs : s.Sound) (h : s.AtSeam c c') (hclosed : s.isClosed = true) :
    c.kind.isClosing = true := by
  obtain ⟨previous, rest, eof⟩ := c
  obtain ⟨rfl, -, -, -⟩ := h
  cases hs with
  | closing _ hclosing => exact hclosing
  | atEnd | insertion => contradiction

/-- At an open seam, the files end or a member begins. -/
theorem AtSeam.of_not_isClosed (hs : s.Sound) (h : s.AtSeam c c') (hopen : s.isClosed = false) :
    c.kind = .eof ∨ c.size = s.rest.length ∧ 0 < c.size := by
  obtain ⟨previous, rest, eof⟩ := c
  obtain ⟨rfl, -, rfl, -⟩ := h
  cases hs with
  | closing => contradiction
  | atEnd heof => exact .inl heof
  | insertion => exact .inr ⟨rfl, Nat.zero_lt_succ _⟩

/-- At a closed seam, what comes next is of the same kind in both files. -/
theorem Near.kind_of_isClosed (hs : s.Sound) (h : s.Near c c') (hclosed : s.isClosed = true) : c'.kind = c.kind := by
  rcases h.cases with hat | hbefore
  · rcases hat.kinds hs with ⟨heq, -⟩ | ⟨hopen, -⟩
    · exact heq
    · rw [hclosed] at hopen
      contradiction
  · exact hbefore.same.kind

/-- No group opens at a seam. -/
theorem Near.before_of_opening (hs : s.Sound) (h : s.Near c c') {closing : TokenKind}
    (hpair : c.kind.closing? = some closing) : s.Before c c' := by
  rcases h.cases with hat | hbefore
  · have hopening : c.kind.isOpening = true := TokenKind.isOpening_iff.mpr ⟨_, hpair⟩
    exfalso
    rcases hat.kinds hs with ⟨-, hend | hend⟩ | ⟨-, hmember, -⟩
    · rw [TokenKind.not_isClosing_of_closing? hpair] at hend
      contradiction
    · rw [hend] at hopening
      contradiction
    · have hnone : ∀ k ∈ memberKinds, k.isOpening = false := by decide
      rw [hnone _ hmember] at hopening
      contradiction
  · exact hbefore

/-- Near a seam, whether the next token is a word that is no modifier is the same in both files. -/
theorem Near.isAtWord (hs : s.Sound) (h : s.Near c c') {word : String} (hword : isModifier word = false) :
    c'.isAtWord word = c.isAtWord word := by
  rcases h.cases with hat | hbefore
  · rcases hat.kinds hs with ⟨heq, hend⟩ | ⟨-, -, hmodifier, hkind', -⟩
    · have hnot : c.kind ≠ .identifier := by
        rintro hkind
        rw [hkind] at hend
        rcases hend with hend | hend <;> contradiction
      rw [Cursor.isAtWord, Cursor.isAtWord, Cursor.isAt, Cursor.isAt, heq, beq_eq_false_iff_ne.mpr hnot]
      rfl
    · have hnot' : c'.kind ≠ .identifier := ne_of_mem_of_not_mem hkind' (by decide)
      have hright : c.isAtWord word = false := by
        rw [Bool.eq_false_iff]
        intro hat'
        have hlexeme : c.peek.lexeme = word := by
          rw [Cursor.isAtWord, Bool.and_eq_true, beq_iff_eq] at hat'
          exact hat'.2
        rw [← hlexeme, TokenParser.isModifier_of_isAtModifier (hmodifier (Cursor.kind_of_isAtWord hat'))] at hword
        contradiction
      rw [hright, Cursor.isAtWord, Cursor.isAt, beq_eq_false_iff_ne.mpr hnot']
      rfl
  · rw [Cursor.isAtWord, Cursor.isAtWord, Cursor.isAt, Cursor.isAt, Cursor.kind, Cursor.kind, hbefore.same.kind,
      hbefore.same.lexeme]

/-! ## Groups -/

/-- The seam inside a group is in front of the bracket that closes it; behind that bracket the files go on as they do
outside. -/
structure Inside (s s₁ : Seam) (closing : TokenKind) (c c' : Cursor) : Prop where
  sound : s₁.Sound
  isClosed : s₁.isClosed = true
  front : ∃ t ts, s₁.rest = t :: ts ∧ t.kind = closing
  front' : ∃ t ts, s₁.rest' = t :: ts ∧ t.kind = closing
  near : s₁.Near c.advance c'.advance
  shift : s₁.rest.length + s.rest'.length = s₁.rest'.length + s.rest.length
  atSeam : ∀ {k k'}, s₁.Near k k' → k.kind.isClosing = true → k.kind = closing ∧ k'.kind = closing ∧
    s.Near k.advance k'.advance

/-- What is related to a group and what is behind it is a group and what is behind that. -/
theorem forall₂_group {R : Token → Token → Prop} {opening closing : Token} {inner ts us : List Token}
    (h : List.Forall₂ R (opening :: (inner ++ closing :: ts)) us) : ∃ opening' inner' closing' ts',
      us = opening' :: (inner' ++ closing' :: ts') ∧ R opening opening' ∧ List.Forall₂ R inner inner' ∧
        R closing closing' ∧ List.Forall₂ R ts ts' := by
  obtain ⟨opening', us', hopening, hus, rfl⟩ := List.forall₂_cons_left_iff.mp h
  obtain ⟨closing', ts', hclosing, hts, hrest⟩ :=
    List.forall₂_cons_left_iff.mp (List.forall₂_drop_append _ _ _ hus.flip).flip
  refine ⟨opening', us'.take inner.length, closing', ts', ?_, hopening, (List.forall₂_take_append _ _ _ hus.flip).flip,
    hclosing, hts⟩
  rw [← hrest, List.take_append_drop]

/-- A group that ends in front of a seam is the same in both files. -/
theorem Near.exists_inside_of_front {ts ts' inner others : List Token} {opening closing : Token}
    (h : s.Near c c') (hrest : c.rest = ts ++ s.rest) (hrest' : c'.rest = ts' ++ s.rest')
    (hsame : List.Forall₂ Token.Same ts ts') (hts : ts = opening :: (inner ++ closing :: others))
    (hclosing : closing.kind.isClosing = true) (hinner : Run false true inner)
    (hothers : s.isClosed = true → Run false true others) :
    ∃ s₁, s.Inside s₁ closing.kind c c' := by
  subst hts
  obtain ⟨opening', inner', closing', others', rfl, hopening, hinner', hclose, hothers'⟩ := forall₂_group hsame
  obtain ⟨hsound, hsound', heof, heof', -, -⟩ := h
  have hadvance : c.advance.rest = inner ++ closing :: (others ++ s.rest) := by
    simp [Cursor.advance, hrest]
  have hadvance' : c'.advance.rest = inner' ++ closing' :: (others' ++ s.rest') := by
    simp [Cursor.advance, hrest']
  have hselector : c'.advance.isAfterSelector = c.advance.isAfterSelector := by
    simp [Cursor.advance, hrest, hrest', Cursor.isAfterSelector, hopening.kind]
  refine ⟨⟨true, closing :: (others ++ s.rest), closing' :: (others' ++ s.rest'), s.eof, s.eof'⟩,
    .closing hclose.kind hclosing, rfl, ⟨closing, _, rfl, rfl⟩, ⟨closing', _, rfl, hclose.kind⟩,
    ⟨hsound.advance, hsound'.advance, by rw [Cursor.eof_advance, heof], by
      rw [Cursor.eof_advance, heof'], hselector, inner, inner', hadvance, hadvance', hinner', fun _ => hinner⟩, ?_, ?_⟩
  · simp only [List.length_cons, List.length_append, hothers'.length_eq]
    omega
  · intro k k' hk hkind
    rcases hk.cases with hat | hbefore
    · obtain ⟨previous, rest, eof⟩ := k
      obtain ⟨previous', rest', eof'⟩ := k'
      obtain ⟨rfl, rfl, rfl, rfl⟩ := hat
      exact ⟨rfl, hclose.kind, hk.sound.advance, hk.sound'.advance, rfl, rfl, hclose.isAfterSelector, others, others', rfl, rfl,
        hothers', hothers⟩
    · exact absurd (hbefore.not_closing rfl) (by rw [hkind]; decide)

/-- In front of a closed seam, every group ends in front of the seam. -/
theorem Near.exists_inside (hs : s.Sound) (h : s.Near c c') {closing : TokenKind}
    (hpair : c.kind.closing? = some closing) (hclosed : s.isClosed = true) : ∃ s₁, s.Inside s₁ closing c c' := by
  have hopening : c.kind.isOpening = true := TokenKind.isOpening_iff.mpr ⟨_, hpair⟩
  obtain ⟨ts, ts', hrest, hrest', hsame, hrun⟩ := h.front
  cases ts with
  | nil =>
    obtain ⟨-, hend⟩ | ⟨hopen, -⟩ :=
      AtSeam.kinds hs ⟨hrest, by cases hsame; exact hrest', h.eof, h.eof'⟩
    · rcases hend with hend | hend
      · rw [TokenKind.not_isClosing_of_closing? hpair] at hend
        contradiction
      · rw [hend] at hopening
        contradiction
    · rw [hclosed] at hopen
      contradiction
  | cons t us =>
    have hpeek : c.kind = t.kind := by simp [Cursor.kind, Cursor.peek, Cursor.peekNth, hrest]
    rcases (hrun hclosed).cons_cases with ⟨hnot, -, -⟩ | ⟨inner, closing', others, hus, hpair', hinner, hothers⟩
    · rw [hpeek, hnot] at hopening
      contradiction
    · obtain rfl : closing'.kind = closing := Option.some.inj (hpair'.symm.trans (hpeek ▸ hpair))
      exact h.exists_inside_of_front hrest hrest' hsame (by rw [hus]) (TokenKind.isClosing_of_closing? hpair) hinner
        fun _ => hothers

/-- A group of the first file that is behind a cursor near a seam and ends in front of the seam is the same in both
files. -/
theorem Near.exists_inside_of_rest (h : s.Near c c') {inner others : List Token} {closing : Token}
    (hclosing : closing.kind.isClosing = true) (hadvance : c.advance.rest = inner ++ closing :: others)
    (hinner : Run false true inner) (hlength : s.rest.length ≤ others.length) (hopen : s.isClosed = false) :
    ∃ s₁, s.Inside s₁ closing.kind c c' := by
  obtain ⟨ts, ts', hrest, hrest', hsame, -⟩ := h.front
  have hbehind : s.rest <:+ others := by
    have hwhole : others <:+ c.rest := by
      have hinside : others <:+ c.advance.rest := ⟨inner ++ [closing], by rw [hadvance]; simp⟩
      refine hinside.trans ?_
      obtain ⟨previous, _ | ⟨t, ts⟩, eof⟩ := c
      · exact List.suffix_refl _
      · exact List.suffix_cons _ _
    exact List.suffix_of_suffix_length_le ⟨ts, hrest.symm⟩ hwhole hlength
  obtain ⟨others, rfl⟩ := hbehind
  cases ts with
  | nil =>
    have hshort := congrArg List.length hadvance
    have hless : c.advance.rest.length ≤ c.rest.length := by
      have := c.size_advance
      simp only [Cursor.size] at this
      omega
    rw [hrest] at hless
    simp only [List.nil_append, List.length_append, List.length_cons] at hshort hless
    omega
  | cons t us =>
    have hus : us = inner ++ closing :: others := by
      have htail : us ++ s.rest = (inner ++ closing :: others) ++ s.rest := by
        rw [List.append_assoc, List.cons_append, ← hadvance]
        simp [Cursor.advance, hrest]
      exact List.append_cancel_right htail
    subst hus
    exact h.exists_inside_of_front hrest hrest' hsame rfl hclosing hinner fun hclosed => by
      rw [hopen] at hclosed
      contradiction

/-! ## Following -/

/-- Whether a parser has not gone beyond a seam. -/
def Reached (s : Seam) (k : Cursor) : Prop := s.isClosed = true ∨ s.rest.length ≤ k.size

theorem Near.reached (h : s.Near c c') : s.Reached c := .inr h.size.2

theorem Reached.mono (hk : k.size ≤ c.size) (h : s.Reached k) : s.Reached c :=
  h.imp_right fun h => Nat.le_trans h hk

/-- Whether what a parser did in the first file, it did in the second one too.  At an open seam this is said of what
succeeds in front of the seam only. -/
structure Tracks {α : Type} [HasPlaces α] (s : Seam) (r r' : EStateM.Result ParseError Cursor α) : Prop where
  ok : ∀ a k, r = .ok a k → s.Reached k → ∃ a' k', r' = .ok a' k' ∧ unplaced a' = unplaced a ∧ s.Near k k'
  error : s.isClosed = true → ∀ e k, r = .error e k → ∃ e' k', r' = .error e' k'

theorem Tracks.of_errors {α : Type} [HasPlaces α] {e e' : ParseError} :
    s.Tracks (.error e k : EStateM.Result ParseError Cursor α) (.error e' k') :=
  ⟨fun _ _ hok => by contradiction, fun _ _ _ _ => ⟨_, _, rfl⟩⟩

/-- In front of an open seam there are as many tokens to come as behind it. -/
theorem Reached.length_le (h : s.Reached k) (hopen : s.isClosed = false) : s.rest.length ≤ k.size :=
  h.resolve_left (by rw [hopen]; nofun)

/-- What goes beyond an open seam may do anything in the second file. -/
theorem Tracks.of_beyond {α : Type} [HasPlaces α] {r r' : EStateM.Result ParseError Cursor α}
    (hopen : s.isClosed = false) (h : ∀ a k, r = .ok a k → k.size < s.rest.length) : s.Tracks r r' where
  ok a k hok hk := by
    have := h a k hok
    have := hk.length_le hopen
    omega
  error hclosed := by
    rw [hopen] at hclosed
    contradiction

/-- Whether a test of the cursor is decided in the same way in both files; or else it holds in the first file only, and
what is done there then goes beyond the seam. -/
def DecidesAt {α : Type} (s : Seam) (t t' : Cursor → Bool) (p : TokenParser α) (c c' : Cursor) : Prop :=
  t' c' = t c ∨ s.isClosed = false ∧ t c = true ∧ ∀ a k, p c = .ok a k → k.size < s.rest.length

/-- Whether a test is decided so wherever it is made under a condition. -/
def Decides {α : Type} (s : Seam) (P : Cursor → Prop) (t t' : Cursor → Bool) (p : TokenParser α) : Prop :=
  ∀ c c', s.Near c c' → P c → s.DecidesAt t t' p c c'

end Seam

namespace TokenParser

open Cursor

/-- Whether a parser that is called near a seam, under a condition, does the same in both files, and only moves on. -/
structure Follows (s : Seam) (P : Cursor → Prop) {α : Type} [HasPlaces α] (p p' : TokenParser α) : Prop where
  tracks : ∀ c c', s.Near c c' → P c → s.Tracks (p c) (p' c')
  moves : ∀ n, Forward n p

namespace Follows

variable {s : Seam} {P : Cursor → Prop} {α β : Type} [HasPlaces α] [HasPlaces β] {p p' q q' : TokenParser α}
  {f f' : α → TokenParser β}

theorem weaken {Q : Cursor → Prop} (h : ∀ c, P c → Q c) (hp : Follows s Q p p') : Follows s P p p' :=
  ⟨fun c c' hnear hc => hp.tracks c c' hnear (h c hc), hp.moves⟩

theorem anywhere (hp : Follows s (fun _ => True) p p') : Follows s P p p' := hp.weaken fun _ _ => trivial

/-- A parser that stays where it is follows if its answers do. -/
theorem of_stays {a : Cursor → α} (hp : ∀ c, p c = .ok (a c) c) {a' : Cursor → α} (hp' : ∀ c, p' c = .ok (a' c) c)
    (h : ∀ c c', s.Near c c' → P c → unplaced (a' c') = unplaced (a c)) : Follows s P p p' where
  tracks c c' hnear hc := by
    rw [hp, hp']
    refine ⟨fun b k hok _ => ?_, fun _ e k herror => by contradiction⟩
    cases hok
    exact ⟨_, _, rfl, h c c' hnear hc, hnear⟩
  moves n := .of_precedes fun c => by rw [hp]; exact .refl

theorem pure {a a' : α} (h : unplaced a' = unplaced a) : Follows s P (Pure.pure a) (Pure.pure a') :=
  of_stays (fun _ => rfl) (fun _ => rfl) fun _ _ _ _ => h

theorem nextSpan : Follows s P TokenParser.nextSpan TokenParser.nextSpan :=
  of_stays (fun _ => rfl) (fun _ => rfl) fun _ _ _ _ => rfl

theorem spanFrom (start start' : Span) : Follows s P (TokenParser.spanFrom start) (TokenParser.spanFrom start') :=
  of_stays (fun _ => rfl) (fun _ => rfl) fun _ _ _ _ => rfl

theorem failAtNext (e e' : Token → ParseError) :
    Follows s P (TokenParser.failAtNext e : TokenParser α) (TokenParser.failAtNext e') where
  tracks c c' _ _ := ⟨fun _ _ hok => by contradiction, fun _ _ _ _ => ⟨_, _, rfl⟩⟩
  moves n := .failAtNext e

omit [HasPlaces α] in
/-- Behind a failure, nothing is done. -/
theorem failAtNext_bind (e e' : Token → ParseError) :
    Follows s P ((TokenParser.failAtNext e : TokenParser α) >>= f) ((TokenParser.failAtNext e' : TokenParser α) >>= f') where
  tracks _ _ _ _ := .of_errors
  moves _ := .of_precedes fun _ => .refl

/-- What is called behind two parsers goes on where they stop. -/
theorem bind_of {Q : α → Cursor → Prop} (hp : Follows s P p p')
    (hmid : ∀ c, c.Sound → P c → ∀ a k, p c = .ok a k → Q a k)
    (hf : ∀ a a', unplaced a' = unplaced a → Follows s (Q a) (f a) (f' a')) : Follows s P (p >>= f) (p' >>= f') where
  tracks c c' hnear hc := by
    obtain ⟨hok, herror⟩ := hp.tracks c c' hnear hc
    rw [bind_eq_match, bind_eq_match]
    cases hfirst : p c with
    | error e k =>
      refine ⟨fun _ _ hok => by contradiction, fun hclosed _ _ _ => ?_⟩
      obtain ⟨e', k', hfirst'⟩ := herror hclosed e k hfirst
      rw [hfirst']
      exact ⟨e', k', rfl⟩
    | ok a k =>
      have hk : k.Sound := (precedes_of_ok hp.moves hnear.sound hfirst).sound hnear.sound
      have hQ := hmid c hnear.sound hc a k hfirst
      refine ⟨fun b m hsecond hm => ?_, fun hclosed e m hsecond => ?_⟩
      · have hsize := (precedes_of_ok (hf a a rfl).moves hk hsecond).size_le
        obtain ⟨a', k', hfirst', ha, hnear'⟩ := hok a k hfirst (hm.mono hsize)
        rw [hfirst']
        exact ((hf a a' ha).tracks k k' hnear' hQ).ok b m hsecond hm
      · obtain ⟨a', k', hfirst', ha, hnear'⟩ := hok a k hfirst (.inl hclosed)
        rw [hfirst']
        exact ((hf a a' ha).tracks k k' hnear' hQ).error hclosed e m hsecond
  moves n := .bind (hp.moves n) fun a => (hf a a rfl).moves n

theorem bind (hp : Follows s P p p') (hf : ∀ a a', unplaced a' = unplaced a → Follows s (fun _ => True) (f a) (f' a')) :
    Follows s P (p >>= f) (p' >>= f') :=
  bind_of hp (fun _ _ _ _ _ _ => trivial) hf

/-- What is called with the cursor as it is now. -/
theorem here_bind {g g' : Cursor → TokenParser β}
    (hg : ∀ d d', s.Near d d' → P d → Follows s (fun c => c = d) (g d) (g' d'))
    (hmoves : ∀ n, Forward n (TokenParser.here >>= g)) : Follows s P (TokenParser.here >>= g) (TokenParser.here >>= g') where
  tracks c c' hnear hc := (hg c c' hnear hc).tracks c c' hnear rfl
  moves := hmoves

theorem ite {b : Bool} (hp : Follows s P p p') (hq : Follows s P q q') :
    Follows s P (if b = true then p else q) (if b = true then p' else q') := by
  cases b
  · exact hq
  · exact hp

/-- A branch under a test of the cursor follows if its branches do. -/
theorem ite_test {t t' : Cursor → Bool} (ht : s.Decides P t t' p) (hp : Follows s (fun c => P c ∧ t c = true) p p')
    (hq : Follows s (fun c => P c ∧ t c = false) q q') :
    Follows s P (test t >>= fun b => if b = true then p else q) (test t' >>= fun b => if b = true then p' else q') where
  tracks c c' hnear hc := by
    show s.Tracks ((if t c = true then p else q) c) ((if t' c' = true then p' else q') c')
    rcases ht c c' hnear hc with heq | ⟨hopen, htrue, hbeyond⟩
    · rw [heq]
      cases htest : t c with
      | true => exact hp.tracks c c' hnear ⟨hc, htest⟩
      | false => exact hq.tracks c c' hnear ⟨hc, htest⟩
    · rw [if_pos htrue]
      exact .of_beyond hopen hbeyond
  moves n := .ite_test (hp.moves n) (hq.moves n)

/-- A repeated parser follows if its turns do. -/
theorem manyWhile {t t' : Cursor → Bool} (ht : s.Decides (fun _ => True) t t' p)
    (hp : Follows s (fun c => t c = true) p p') :
    Follows s P (TokenParser.manyWhile t p) (TokenParser.manyWhile t' p') := by
  have hmoves : ∀ n, Forward n (TokenParser.manyWhile t p) := fun n => .manyWhile (hp.moves n)
  refine ⟨fun c c' hnear hc => ?_, hmoves⟩
  clear hc
  induction hsize : c.size using Nat.strongRecOn generalizing c c' with
  | _ size ih =>
    rw [TokenParser.manyWhile.eq_def t p, TokenParser.manyWhile.eq_def t' p']
    rcases ht c c' hnear trivial with heq | ⟨hopen, htrue, hbeyond⟩
    · rw [heq]
      cases htest : t c with
      | false =>
        refine ⟨fun as k hok _ => ?_, fun _ e k herror => by contradiction⟩
        cases hok
        exact ⟨[], c', rfl, rfl, hnear⟩
      | true =>
        obtain ⟨hfirst, herror⟩ := hp.tracks c c' hnear htest
        simp only [if_true]
        cases hturn : p c with
        | error e k =>
          refine ⟨fun _ _ hok => by contradiction, fun hclosed _ _ _ => ?_⟩
          obtain ⟨e', k', hturn'⟩ := herror hclosed e k hturn
          rw [hturn']
          exact ⟨e', k', rfl⟩
        | ok a k =>
          have hk : k.Sound := (precedes_of_ok hp.moves hnear.sound hturn).sound hnear.sound
          -- the first turn does the same, unless the whole goes beyond the seam
          have hsame : s.Reached k → ∃ a' k', p' c' = .ok a' k' ∧ unplaced a' = unplaced a ∧ s.Near k k' ∧
              (k'.size < c'.size ↔ k.size < c.size) := fun hreached => by
            obtain ⟨a', k', hturn', ha, hnear'⟩ := hfirst a k hturn hreached
            exact ⟨a', k', hturn', ha, hnear', hnear.size_lt_iff hnear'⟩
          by_cases hless : k.size < c.size
          · simp only [if_pos hless]
            have hothers := ih k.size (hsize ▸ hless) k
            refine ⟨fun as m hok hm => ?_, fun hclosed e m herr => ?_⟩
            · cases hrest : TokenParser.manyWhile t p k with
              | error e m' =>
                rw [hrest] at hok
                contradiction
              | ok as' m' =>
                rw [hrest] at hok
                cases hok
                have hreached := hm.mono (precedes_of_ok hmoves hk hrest).size_le
                obtain ⟨a', k', hturn', ha, hnear', hless'⟩ := hsame hreached
                obtain ⟨bs, m', hrest', hbs, hnear''⟩ := (hothers k' hnear' rfl).ok as' m hrest hm
                rw [hturn']
                simp only [if_pos (hless'.mpr hless), hrest']
                exact ⟨a' :: bs, m', rfl, congrArg₂ List.cons ha hbs, hnear''⟩
            · cases hrest : TokenParser.manyWhile t p k with
              | ok as' m' =>
                rw [hrest] at herr
                contradiction
              | error e₁ m' =>
                obtain ⟨a', k', hturn', ha, hnear', hless'⟩ := hsame (.inl hclosed)
                obtain ⟨e', m'', hrest'⟩ := (hothers k' hnear' rfl).error hclosed e₁ m' hrest
                rw [hturn']
                simp only [if_pos (hless'.mpr hless), hrest']
                exact ⟨_, _, rfl⟩
          · simp only [if_neg hless]
            refine ⟨fun as m hok hm => ?_, fun _ e m herr => by contradiction⟩
            cases hok
            obtain ⟨a', k', hturn', ha, hnear', hless'⟩ := hsame hm
            rw [hturn']
            simp only [if_neg (fun h => hless (hless'.mp h))]
            exact ⟨[a'], k', rfl, congrArg (· :: []) ha, hnear'⟩
    · rw [if_pos htrue]
      refine .of_beyond hopen fun as m hok => ?_
      cases hturn : p c with
      | error e k =>
        rw [hturn] at hok
        contradiction
      | ok a k =>
        have hshort := hbeyond a k hturn
        have hk : k.Sound := (precedes_of_ok hp.moves hnear.sound hturn).sound hnear.sound
        rw [hturn] at hok
        dsimp only at hok
        split at hok
        · cases hrest : TokenParser.manyWhile t p k with
          | error e m' =>
            rw [hrest] at hok
            contradiction
          | ok as' m' =>
            rw [hrest] at hok
            cases hok
            have := (precedes_of_ok hmoves hk hrest).size_le
            omega
        · cases hok
          exact hshort

/-- In front of a closed seam, what is tried is given up in both files or in neither. -/
theorem attempt (hclosed : s.isClosed = true) (hp : Follows s P p p') :
    Follows s P (TokenParser.attempt p) (TokenParser.attempt p') where
  tracks c c' hnear hc := by
    obtain ⟨hok, herror⟩ := hp.tracks c c' hnear hc
    unfold TokenParser.attempt
    cases htry : p c with
    | ok a k =>
      obtain ⟨a', k', htry', ha, hnear'⟩ := hok a k htry (.inl hclosed)
      rw [htry']
      refine ⟨fun b m hb _ => ?_, fun _ _ _ h => by contradiction⟩
      cases hb
      exact ⟨some a', k', rfl, congrArg some ha, hnear'⟩
    | error e k =>
      obtain ⟨e', k', htry'⟩ := herror hclosed e k htry
      rw [htry']
      refine ⟨fun b m hb _ => ?_, fun _ _ _ h => by contradiction⟩
      cases hb
      exact ⟨none, c', rfl, rfl, hnear⟩
  moves n := .attempt (hp.moves n)

end Follows

/-! ## Single tokens -/

section Tokens

variable {s : Seam} (hs : s.Sound) {P : Cursor → Prop} {α : Type} [HasPlaces α] {p p' : TokenParser α}

include hs

/-- A single token is passed in both files, or it is one behind an open seam. -/
theorem tracks_advance {c c' : Cursor} (hnear : s.Near c c') (hsingle : c.kind.isSingle = true) {a a' : α}
    (ha : c.peek.Same c'.peek → unplaced a' = unplaced a) :
    s.Tracks (.ok a c.advance) (.ok a' c'.advance : EStateM.Result ParseError Cursor α) := by
  obtain ⟨hopening, hclosing, heof⟩ := TokenKind.isSingle_iff.mp hsingle
  refine ⟨fun b k hok hk => ?_, fun _ _ _ h => by contradiction⟩
  cases hok
  rcases hnear.cases with hat | hbefore
  · rcases hat.kinds hs with ⟨-, hclosing' | heof'⟩ | ⟨hopen, -, -, -, hsize, hpos⟩
    · rw [hclosing] at hclosing'
      contradiction
    · exact absurd heof' heof
    · have hlength : s.rest.length ≤ c.advance.size := hk.resolve_left (by rw [hopen]; exact Bool.false_ne_true)
      rw [size_advance] at hlength
      omega
  · exact ⟨a', _, rfl, ha hbefore.same, hbefore.advance fun _ => hopening⟩

namespace Follows

theorem next (h : ∀ c, P c → c.kind.isSingle = true) : Follows s P TokenParser.next TokenParser.next where
  tracks c c' hnear hc := tracks_advance hs hnear (h c hc) fun hsame => by
    show (⟨_, _, _, _⟩ : Token) = ⟨_, _, _, _⟩
    rw [hsame.kind, hsame.lexeme]
  moves n := .next

/-- Passing a token that is wanted, and failing without it. -/
private theorem of_wanted {t : Cursor → Bool} {a a' : Cursor → α} {e e' : Cursor → ParseError}
    (hp : ∀ c, p c = if t c = true then .ok (a c) c.advance else .error (e c) c)
    (hp' : ∀ c, p' c = if t c = true then .ok (a' c) c.advance else .error (e' c) c)
    (hsingle : ∀ c, t c = true → c.kind.isSingle = true)
    (ht : ∀ c c', Token.Same c.peek c'.peek → t c' = t c ∧ unplaced (a' c') = unplaced (a c))
    (hmoves : ∀ n, Forward n p) : Follows s P p p' where
  tracks c c' hnear hc := by
    rw [hp, hp']
    cases htest : t c with
    | true =>
      rcases hnear.cases with hat | hbefore
      · rcases hat.kinds hs with ⟨-, hend⟩ | ⟨hopen, -, -, -, hsize, hpos⟩
        · obtain ⟨-, hclosing, heof⟩ := TokenKind.isSingle_iff.mp (hsingle c htest)
          rcases hend with hend | hend
          · rw [hclosing] at hend
            contradiction
          · exact absurd hend heof
        · refine ⟨fun b k hok hk => ?_, fun hclosed => by rw [hopen] at hclosed; contradiction⟩
          cases hok
          have hlength := hk.resolve_left (by rw [hopen]; exact Bool.false_ne_true)
          rw [size_advance] at hlength
          omega
      · rw [(ht c c' hbefore.same).1, htest]
        exact tracks_advance hs hnear (hsingle c htest) fun hsame => (ht c c' hsame).2
    | false =>
      refine ⟨fun _ _ hok => by contradiction, fun hclosed _ _ _ => ?_⟩
      have hfalse : t c' = false := by
        rcases hnear.cases with hat | hbefore
        · rcases hat.kinds hs with ⟨heq, hend⟩ | ⟨hopen, -⟩
          · rw [Bool.eq_false_iff]
            intro htrue
            obtain ⟨-, hclosing, heof⟩ := TokenKind.isSingle_iff.mp (hsingle c' htrue)
            rw [heq] at hclosing heof
            rcases hend with hend | hend
            · rw [hclosing] at hend
              contradiction
            · exact heof hend
          · rw [hopen] at hclosed
            contradiction
        · rw [(ht c c' hbefore.same).1, htest]
      rw [hfalse]
      exact ⟨_, _, rfl⟩
  moves := hmoves

theorem expect {k : TokenKind} (hk : k.isSingle = true) :
    Follows s P (TokenParser.expect k) (TokenParser.expect k) := by
  refine of_wanted hs (fun _ => rfl) (fun _ => rfl) (fun c h => isAt_iff.mp h ▸ hk) (fun c c' hsame => ⟨?_, ?_⟩)
    fun n => .expect k
  · rw [isAt, isAt, kind, kind, hsame.kind]
  · show (⟨_, _, _, _⟩ : Token) = ⟨_, _, _, _⟩
    rw [hsame.kind, hsame.lexeme]

theorem identifier : Follows s P TokenParser.identifier TokenParser.identifier := by
  refine of_wanted hs (fun _ => rfl) (fun _ => rfl) (fun c h => isAt_iff.mp h ▸ rfl) (fun c c' hsame => ⟨?_, ?_⟩)
    fun n => .identifier
  · rw [isAt, isAt, kind, kind, hsame.kind]
  · show (⟨_, _⟩ : Ident) = ⟨_, _⟩
    rw [hsame.lexeme]

/-- Passing a token that may be there. -/
private theorem of_tested {t : Cursor → Bool} {a a' b b' : Cursor → α}
    (hp : ∀ c, p c = if t c = true then .ok (a c) c.advance else .ok (b c) c)
    (hp' : ∀ c, p' c = if t c = true then .ok (a' c) c.advance else .ok (b' c) c)
    (hsingle : ∀ c, t c = true → c.kind.isSingle = true) (ht : ∀ c c', s.Near c c' → P c → t c' = t c)
    (ha : ∀ c c', Token.Same c.peek c'.peek → unplaced (a' c') = unplaced (a c))
    (hb : ∀ c c', unplaced (b' c') = unplaced (b c)) (hmoves : ∀ n, Forward n p) : Follows s P p p' where
  tracks c c' hnear hc := by
    rw [hp, hp', ht c c' hnear hc]
    cases htest : t c with
    | true => exact tracks_advance hs hnear (hsingle c htest) (ha c c')
    | false =>
      refine ⟨fun x k hok _ => ?_, fun _ _ _ h => by contradiction⟩
      cases hok
      exact ⟨_, _, rfl, hb c c', hnear⟩
  moves := hmoves

/-- Passing a token that may be there, where this is so in both files or in neither. -/
theorem eat_of {k : TokenKind} (hk : k.isSingle = true) (h : ∀ c c', s.Near c c' → P c → c'.isAt k = c.isAt k) :
    Follows s P (TokenParser.eat k) (TokenParser.eat k) :=
  of_tested hs (fun _ => rfl) (fun _ => rfl) (fun _ h => isAt_iff.mp h ▸ hk) h (fun _ _ _ => rfl) (fun _ _ => rfl)
    fun _ => .eat k

theorem eat {k : TokenKind} (hk : k.isSingle = true) (hapart : s.Apart k) :
    Follows s P (TokenParser.eat k) (TokenParser.eat k) :=
  eat_of hs hk fun _ _ h _ => h.isAt hs hapart

theorem eat? {k : TokenKind} (hk : k.isSingle = true) (hapart : s.Apart k) :
    Follows s P (TokenParser.eat? k) (TokenParser.eat? k) := by
  refine of_tested hs (fun _ => rfl) (fun _ => rfl) (fun _ h => isAt_iff.mp h ▸ hk) (fun _ _ h _ => h.isAt hs hapart)
    (fun c c' hsame => ?_) (fun _ _ => rfl) fun n => .eat? k
  show some (⟨_, _, _, _⟩ : Token) = some ⟨_, _, _, _⟩
  rw [hsame.kind, hsame.lexeme]

theorem eatWord {word : String} (hword : isModifier word = false) :
    Follows s P (TokenParser.eatWord word) (TokenParser.eatWord word) :=
  of_tested hs (fun _ => rfl) (fun _ => rfl) (fun _ h => kind_of_isAtWord h ▸ rfl) (fun _ _ h _ => h.isAtWord hs hword)
    (fun _ _ _ => rfl) (fun _ _ => rfl) fun _ => .eatWord word

end Follows

end Tokens

/-! ## The text of the tokens passed -/

/-- The text of tokens does not depend on where they stand. -/
theorem textAfter_congr {ts ts' : List Token} (h : List.Forall₂ Token.Same ts ts') (before : Option TokenKind) :
    Token.textAfter before ts' = Token.textAfter before ts := by
  induction h generalizing before with
  | nil => rfl
  | cons hsame _ ih => rw [Token.textAfter, Token.textAfter, hsame.kind, hsame.lexeme, ih]

theorem text_between {s : Seam} {c c' d d' : Cursor} (hd : s.Near d d') (hc : s.Near c c') :
    Token.text (d'.between c') = Token.text (d.between c) := by
  have hsize := hd.size
  have hsize' := hc.size
  obtain ⟨-, -, -, -, -, ts, ts', hrest, hrest', hsame, -⟩ := hd
  have hlength : d.size = ts.length + s.rest.length := by rw [Cursor.size, hrest, List.length_append]
  have hlength' : ts'.length = ts.length := hsame.length_eq.symm
  have hcount : d'.size - c'.size = d.size - c.size := by omega
  rw [Cursor.between, Cursor.between, hcount, hrest, hrest', List.take_append_of_le_length (by omega),
    List.take_append_of_le_length (by omega)]
  exact textAfter_congr (List.forall₂_take _ hsame) none

theorem Follows.textSince {s : Seam} {P : Cursor → Prop} {d d' : Cursor} (hd : s.Near d d') :
    Follows s P (TokenParser.textSince d) (TokenParser.textSince d') :=
  of_stays (fun _ => rfl) (fun _ => rfl) fun _ _ h _ => text_between hd h

end TokenParser

end ServiceCatalog
