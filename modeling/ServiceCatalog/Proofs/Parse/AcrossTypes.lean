import ServiceCatalog.Proofs.Parse.Progress
import ServiceCatalog.Proofs.Parse.Seam

/-!
# Groups and types in front of a seam

Each construct that types are made of does the same in two files that are the same up to a seam.  A construct in
brackets is looked at inside of them, in front of the closed seam there.  At an open seam the tests that look at the
kinds of tokens which members begin with may be decided differently; but then the construct goes beyond the seam in
the first file (`Seam.Decides`).
-/

namespace ServiceCatalog

/-! ## Groups -/

/-- A reading of brackets passes a run and goes on behind it. -/
theorem groupReach_append {inner : List Token} (hrun : Run false true inner) (due : TokenKind)
    (outer : List TokenKind) (rest : List Token) :
    groupReach (due :: outer) (inner ++ rest) =
      ⟨inner.length + (groupReach (due :: outer) rest).length, (groupReach (due :: outer) rest).ending⟩ := by
  generalize hloose : false = loose at hrun
  generalize hbraces : true = braces at hrun
  induction hrun generalizing due outer rest with
  | nil => simp
  | @single loose braces t ts hopening hclosing hts ih =>
    subst hloose hbraces
    have hnone : t.kind.closing? = none := by
      rw [← Option.not_isSome_iff_eq_none, Option.isSome_iff_exists, ← TokenKind.isOpening_iff, hopening]
      exact Bool.false_ne_true
    have hnot : ¬t.kind.isClosing = true := fun h => absurd (hclosing h).1 Bool.false_ne_true
    rw [List.cons_append, groupReach, hnone]
    simp only [if_neg hnot]
    rw [ih due outer rest rfl rfl, GroupReach.succ, List.length_cons]
    simp only [Nat.add_right_comm]
  | @group loose braces opening closing inner ts hpair hbrace hinner hts ihinner ih =>
    subst hloose hbraces
    have hclosing : closing.kind.isClosing = true := TokenKind.isClosing_of_closing? hpair
    have hnone : closing.kind.closing? = none := by
      cases hkind : closing.kind <;> rw [hkind] at hclosing <;> first | rfl | contradiction
    have hsplit : opening :: inner ++ closing :: ts ++ rest = opening :: (inner ++ (closing :: (ts ++ rest))) := by simp
    rw [hsplit, groupReach, hpair]
    simp only
    rw [ihinner closing.kind (due :: outer) _ rfl rfl, groupReach, hnone]
    simp only [hclosing, if_true]
    rw [ih due outer rest rfl rfl]
    simp only [GroupReach.succ, List.length_cons, List.length_append, GroupReach.mk.injEq, and_true]
    omega

theorem map_kind_eq {ts ts' : List Token} (h : List.Forall₂ Token.Same ts ts') :
    ts'.map Token.kind = ts.map Token.kind := by
  induction h with
  | nil => rfl
  | cons hsame _ ih => rw [List.map_cons, List.map_cons, hsame.kind, ih]

/-- Tokens that read the same as those of a run are a run. -/
theorem Run.sameText {loose braces : Bool} {ts ts' : List Token} (h : Run loose braces ts)
    (hsame : List.Forall₂ Token.SameText ts ts') : Run loose braces ts' := by
  induction h generalizing ts' with
  | nil =>
    cases hsame
    exact .nil
  | single hopening hclosing _ ih =>
    obtain ⟨t', us', ht, hus, rfl⟩ := List.forall₂_cons_left_iff.mp hsame
    exact .single (ht.kind ▸ hopening) (ht.kind ▸ hclosing) (ih hus)
  | @group loose braces opening closing inner ts hpair hbrace _ _ ihinner ih =>
    obtain ⟨opening', inner', closing', ts', rfl, hopening, hinner, hclosing, hts⟩ := Seam.forall₂_group hsame
    exact .group (by rw [hopening.kind, hclosing.kind, hpair]) (hopening.kind ▸ hbrace) (ihinner hinner) (ih hts)

/-- A group that closes is passed, with the bracket behind it. -/
theorem TokenParser.skipGroup_of_run {c : Cursor} {closing : TokenKind} {inner rest : List Token} {t : Token}
    (hpair : c.kind.closing? = some closing) (hadvance : c.advance.rest = inner ++ t :: rest)
    (hinner : Run false true inner) (ht : t.kind = closing) :
    skipGroup c = .ok () (c.advance.skip inner.length).advance := by
  subst ht
  have hpair' : c.peek.kind.closing? = some t.kind := hpair
  have hskip : skipGroup c = closeGroups [t.kind] c.advance := by
    simp only [skipGroup, bind, EStateM.bind, next, hpair']
  have hclosing : t.kind.isClosing = true := TokenKind.isClosing_of_closing? hpair
  have hnone : t.kind.closing? = none := by
    cases hkind : t.kind <;> rw [hkind] at hclosing <;> first | rfl | contradiction
  have hend : groupReach [t.kind] (t :: rest) = ⟨1, .closed⟩ := by
    rw [groupReach, hnone]
    simp only [hclosing, if_true, groupReach]
    rfl
  rw [hskip, closeGroups, hadvance, groupReach_append hinner, hend, Cursor.advance_eq_skip (c.advance.skip _),
    Cursor.skip_skip]

namespace Seam

variable {s s₁ : Seam} {c c' : Cursor} {closing : TokenKind}

/-- Behind all tokens in front of a seam, two cursors stand at the seam. -/
theorem Near.skip {ts ts' : List Token} (h : s.Near c c') (hrest : c.rest = ts ++ s.rest)
    (hrest' : c'.rest = ts' ++ s.rest') (hsame : List.Forall₂ Token.Same ts ts') :
    s.Near (c.skip ts.length) (c'.skip ts.length) ∧ (c.skip ts.length).rest = s.rest := by
  have hlength : ts'.length = ts.length := hsame.length_eq.symm
  have hbehind : (c.skip ts.length).rest = s.rest := by rw [Cursor.skip, hrest, List.drop_left]
  have hbehind' : (c'.skip ts.length).rest = s.rest' := by rw [Cursor.skip, hrest', ← hlength, List.drop_left]
  refine ⟨⟨(Cursor.Precedes.skip _).sound h.sound, (Cursor.Precedes.skip _).sound h.sound', h.eof, h.eof', ?_, [], [], hbehind, hbehind', .nil,
    fun _ => .nil⟩, hbehind⟩
  have hlast : ts'.getLast?.map Token.kind = ts.getLast?.map Token.kind := by
    rw [← List.getLast?_map, ← List.getLast?_map, map_kind_eq hsame]
  have htake : c.rest.take ts.length = ts := by rw [hrest, List.take_left]
  have htake' : c'.rest.take ts.length = ts' := by rw [hrest', ← hlength, List.take_left]
  unfold Cursor.isAfterSelector
  simp only [Cursor.skip, htake, htake']
  cases hend : ts.getLast? with
  | none =>
    rw [hend, Option.map_none, Option.map_eq_none_iff] at hlast
    rw [hlast]
    exact h.selector
  | some t =>
    rw [hend, Option.map_some, Option.map_eq_some_iff] at hlast
    obtain ⟨t', hend', hkind⟩ := hlast
    rw [hend']
    simp only [Option.some_or, hkind]

/-- A group that ends in front of a seam is passed in both files. -/
theorem Inside.skipGroup (h : s.Inside s₁ closing c c') (hpair : c.kind.closing? = some closing)
    (hpair' : c'.kind.closing? = some closing) : ∃ k k', TokenParser.skipGroup c = .ok () k ∧
      TokenParser.skipGroup c' = .ok () k' ∧ s.Near k k' := by
  obtain ⟨ts, ts', hrest, hrest', hsame, hrun⟩ := h.near.front
  obtain ⟨hnear, hbehind⟩ := h.near.skip hrest hrest' hsame
  have hinner := hrun h.isClosed
  obtain ⟨t, us, hfront, ht⟩ := h.front
  obtain ⟨t', us', hfront', ht'⟩ := h.front'
  have hkind : (c.advance.skip ts.length).kind.isClosing = true := by
    rw [Cursor.kind, Cursor.peek, Cursor.peekNth, hbehind, hfront]
    exact ht ▸ TokenKind.isClosing_of_closing? hpair
  refine ⟨_, _, TokenParser.skipGroup_of_run hpair (hfront ▸ hrest) hinner ht,
    TokenParser.skipGroup_of_run hpair' (hfront' ▸ hrest') (hinner.sameText (hsame.imp fun _ _ => Token.Same.sameText)) ht', ?_⟩
  rw [← hsame.length_eq]
  exact (h.atSeam hnear hkind).2.2

end Seam

namespace TokenParser

open Cursor

/-- What a group that is passed is made up of. -/
theorem skipGroup_ok {c k : Cursor} (hok : TokenParser.skipGroup c = .ok () k) :
    ∃ closing inner t rest, c.kind.closing? = some closing ∧ c.advance.rest = inner ++ t :: rest ∧
      Run false true inner ∧ t.kind = closing ∧ k.rest = rest := by
  obtain ⟨opening, c₁, hnext, hok⟩ := bind_eq_ok.mp hok
  cases hnext
  cases hpair : c.peek.kind.closing? with
  | none =>
    rw [hpair] at hok
    cases hok
  | some closing =>
    simp only [hpair, closeGroups] at hok
    cases hending : (groupReach [closing] c.advance.rest).ending <;>
      simp only [hending, EStateM.Result.ok.injEq, true_and, reduceCtorEq] at hok
    obtain ⟨inner, t, rest, hts, hinner, hclosing, -, hlength⟩ := groupReach_closed hending
    refine ⟨closing, inner, t, rest, hpair, hts, hinner, hclosing, ?_⟩
    rw [← hok, skip, hlength, hts]
    simp [groupReach]

theorem skipUntil_eq (stop : Cursor → Bool) : TokenParser.skipUntil stop =
    (TokenParser.manyWhile (fun c => !c.isAtEnd && !stop c) TokenParser.skipOne >>= fun _ => pure ()) := by
  funext c
  refine Eq.trans ?_ (bind_eq_match _ _ c).symm
  unfold TokenParser.skipUntil
  cases TokenParser.manyWhile (fun c => !c.isAtEnd && !stop c) TokenParser.skipOne c <;> rfl

/-- What opens no group is none. -/
theorem skipGroup_of_not_opening {c : Cursor} (h : c.kind.closing? = none) :
    TokenParser.skipGroup c = .error (notOpening c.peek) c.advance := by
  simp only [TokenParser.skipGroup, bind, EStateM.bind, TokenParser.next, show c.peek.kind.closing? = none from h]
  rfl

namespace Follows

variable {s : Seam} {P : Cursor → Prop}

theorem skipGroup (hs : s.Sound) : Follows s P TokenParser.skipGroup TokenParser.skipGroup where
  tracks c c' hnear _ := by
    -- what is passed in both files, is passed alike
    have hgo : ∀ {closing s₁}, c.kind.closing? = some closing → s.Inside s₁ closing c c' → c'.kind = c.kind →
        s.Tracks (TokenParser.skipGroup c) (TokenParser.skipGroup c') := fun hpair hinside hkind => by
      obtain ⟨k, k', hk, hk', hnear'⟩ := hinside.skipGroup hpair (hkind ▸ hpair)
      rw [hk, hk']
      refine ⟨fun _ _ hok _ => ?_, fun _ _ _ h => by contradiction⟩
      cases hok
      exact ⟨_, _, rfl, rfl, hnear'⟩
    cases hclosed : s.isClosed with
    | true =>
      have hkind : c'.kind = c.kind := hnear.kind_of_isClosed hs hclosed
      cases hpair : c.kind.closing? with
      | some closing =>
        obtain ⟨s₁, hinside⟩ := hnear.exists_inside hs hpair hclosed
        exact hgo hpair hinside hkind
      | none =>
        rw [skipGroup_of_not_opening hpair, skipGroup_of_not_opening (hkind ▸ hpair)]
        exact ⟨fun _ _ hok => by contradiction, fun _ _ _ _ => ⟨_, _, rfl⟩⟩
    | false =>
      refine ⟨fun a k hok hk => ?_, fun h => by rw [hclosed] at h; contradiction⟩
      obtain ⟨closing, inner, t, rest, hpair, hadvance, hinner, ht, hrest⟩ := skipGroup_ok hok
      have hlength : s.rest.length ≤ rest.length := hrest ▸ hk.resolve_left (by rw [hclosed]; nofun)
      obtain ⟨s₁, hinside⟩ := hnear.exists_inside_of_rest (ht ▸ TokenKind.isClosing_of_closing? hpair) hadvance hinner
        hlength hclosed
      have hbefore := hnear.before_of_opening hs hpair
      exact (hgo hpair (ht ▸ hinside) hbefore.same.kind).ok a k hok hk
  moves := forward_skipGroup

theorem skipOne (hs : s.Sound)
    (h : ∀ c, P c → c.kind ≠ .eof ∧ (s.isClosed = true → c.kind.isClosing = false)) :
    Follows s P TokenParser.skipOne TokenParser.skipOne where
  tracks c c' hnear hc := by
    obtain ⟨heof, hclosing⟩ := h c hc
    unfold TokenParser.skipOne
    cases hopening : c.kind.isOpening with
    | true =>
      obtain ⟨closing, hpair⟩ := TokenKind.isOpening_iff.mp hopening
      have hkind : c'.kind = c.kind := (hnear.before_of_opening hs hpair).same.kind
      rw [hkind, hopening]
      exact (skipGroup hs (P := fun _ => True)).tracks c c' hnear trivial
    | false =>
      rcases hnear.cases with hat | hbefore
      · cases hclosed : s.isClosed with
        | true =>
          have hend := hat.isClosing hs hclosed
          rw [hclosing hclosed] at hend
          contradiction
        | false =>
          obtain ⟨hsize, hpos⟩ := (hat.of_not_isClosed hs hclosed).resolve_left heof
          refine .of_beyond hclosed fun a k hok => ?_
          cases hok
          rw [size_advance]
          omega
      · have hkind : c'.kind = c.kind := hbefore.same.kind
        rw [hkind, hopening]
        refine ⟨fun a k hok _ => ?_, fun _ _ _ h => by contradiction⟩
        cases hok
        exact ⟨_, _, rfl, rfl, hbefore.advance fun _ => hopening⟩
  moves := forward_skipOne

theorem skipUntil (hs : s.Sound) {stop : Cursor → Bool}
    (ht : s.Decides (fun _ => True) (fun c => !c.isAtEnd && !stop c) (fun c => !c.isAtEnd && !stop c) TokenParser.skipOne)
    (hstop : ∀ c, stop c = false → s.isClosed = true → c.kind.isClosing = false) :
    Follows s P (TokenParser.skipUntil stop) (TokenParser.skipUntil stop) := by
  rw [skipUntil_eq]
  refine .bind (.manyWhile ht (skipOne hs fun c h => ?_)) fun _ _ _ => .pure rfl
  simp only [Bool.and_eq_true, Bool.not_eq_true', isAtEnd] at h
  exact ⟨fun heof => by rw [isAt_iff.mpr heof] at h; exact absurd h.1 (by decide), hstop c h.2⟩

end Follows

end TokenParser

/-! ## Tests of the next tokens -/

namespace Seam

open TokenParser

variable {s : Seam} {P : Cursor → Prop} {α : Type} {p : TokenParser α} {t t' : Cursor → Bool}

theorem Decides.of_eq (h : ∀ c c', s.Near c c' → P c → t' c' = t c) : s.Decides P t t' p :=
  fun c c' hnear hc => .inl (h c c' hnear hc)

theorem Decides.isAt (hs : s.Sound) {kind : TokenKind} (hkind : s.Apart kind) :
    s.Decides P (·.isAt kind) (·.isAt kind) p :=
  .of_eq fun _ _ hnear _ => hnear.isAt hs hkind

/-- A test under which the next token is passed, which begins neither a function nor a property. -/
theorem Decides.of_consumes (hs : s.Sound)
    (hkind : ∀ c, t c = true → c.kind.isSingle = true ∧ c.kind ∉ [TokenKind.fun, .val, .var])
    (hp : Consumes (fun c => t c = true) p) (h : ∀ c c', s.Before c c' → P c → s.DecidesAt t t p c c') :
    s.Decides P t t p := by
  intro c c' hnear hc
  rcases hnear.cases with hat | hbefore
  · rcases hat.kinds hs with ⟨heq, hend⟩ | ⟨hopen, -, -, hkind', hsize, hpos⟩
    · have hfalse : ∀ d : Cursor, d.kind = c.kind → t d = false := by
        refine fun d hd => Bool.eq_false_iff.mpr fun ht => ?_
        obtain ⟨-, hclosing, heof⟩ := TokenKind.isSingle_iff.mp (hd ▸ (hkind d ht).1)
        rcases hend with hend | hend
        · rw [hclosing] at hend
          contradiction
        · exact heof hend
      exact .inl ((hfalse c' heq).trans (hfalse c rfl).symm)
    · have hfalse' : t c' = false := Bool.eq_false_iff.mpr fun ht => (hkind c' ht).2 hkind'
      cases htest : t c with
      | false => exact .inl (hfalse'.trans htest.symm)
      | true => exact .inr ⟨hopen, htest, fun a k hok => hsize ▸ hp c hnear.sound htest a k hok⟩
  · exact h c c' hbefore hc

/-- A test of the next token, under which it is passed. -/
theorem Decides.of_first (hs : s.Sound) (kind : TokenKind) (hsingle : kind.isSingle = true)
    (hmember : kind ∉ [TokenKind.fun, .val, .var]) (hkind : ∀ c, t c = true → c.kind = kind)
    (hp : Consumes (fun c => t c = true) p) (h : ∀ c c', s.Before c c' → c.kind = kind → P c → s.DecidesAt t t p c c') :
    s.Decides P t t p := by
  have hfalse : ∀ c : Cursor, c.kind ≠ kind → t c = false := fun c h => Bool.eq_false_iff.mpr fun ht => h (hkind c ht)
  refine .of_consumes hs (fun c ht => ?_) hp fun c c' hbefore hc => ?_
  · rw [hkind c ht]
    exact ⟨hsingle, hmember⟩
  · by_cases hfirst : c.kind = kind
    · exact h c c' hbefore hfirst hc
    · exact .inl ((hfalse c' (hbefore.same.kind.trans_ne hfirst)).trans (hfalse c hfirst).symm)

/-- Whether an annotation comes next, when it is passed then. -/
theorem Decides.isAt_at (hs : s.Sound) (hp : Consumes (fun c => c.isAt .at = true) p) :
    s.Decides P (·.isAt .at) (·.isAt .at) p :=
  .of_first hs .at rfl (by decide) (fun _ => Cursor.isAt_iff.mp) hp fun c c' hbefore _ _ =>
    .inl (congrArg (· == TokenKind.at) hbefore.same.kind)

/-- A test of the next two tokens, under which both are passed. -/
theorem Decides.of_second (hs : s.Sound) (kind : TokenKind) (hsingle : kind.isSingle = true)
    (hmember : kind ∉ [TokenKind.fun, .val, .var]) (hkind : ∀ c, t c = true → c.kind = kind)
    (hsecond : ∀ c : Cursor, t c = true → c.secondKind ∉ [TokenKind.fun, .val, .var])
    (hcongr : ∀ c c' : Cursor, c'.kind = c.kind → c'.peek.lexeme = c.peek.lexeme → c'.secondKind = c.secondKind →
      t c' = t c) (hp : ∀ c, c.Sound → t c = true → ∀ a k, p c = .ok a k → k.size + 2 ≤ c.size) :
    s.Decides P t t p := by
  intro c c' hnear hc
  refine of_first (P := fun d => d.Sound) hs kind hsingle hmember hkind
    (fun c hc ht a k hok => by have := hp c hc ht a k hok; omega) (fun c c' hbefore hfirst hc => ?_) c c' hnear hnear.sound
  have hopening : c.kind.isOpening = false := hfirst ▸ (TokenKind.isSingle_iff.mp hsingle).1
  have hadvance := hbefore.advance fun _ => hopening
  rcases hadvance.kind hs with heq | ⟨hopen, hmember', hsize, hpos⟩
  · exact .inl (hcongr c c' hbefore.same.kind hbefore.same.lexeme
      (hbefore.secondKind' ▸ hbefore.secondKind ▸ heq))
  · rw [hbefore.secondKind'] at hmember'
    have hfalse' : t c' = false := Bool.eq_false_iff.mpr fun ht => hsecond c' ht hmember'
    cases htest : t c with
    | false => exact .inl (hfalse'.trans htest.symm)
    | true =>
      refine .inr ⟨hopen, htest, fun a k hok => ?_⟩
      have := hp c hc htest a k hok
      rw [Cursor.size_advance] at hsize
      omega

end Seam

namespace Seam

/-- Whether what is behind a seam is so much longer in the one file than in the other one as is given. -/
def Shifts (n n' : ℕ) (s : Seam) : Prop := s.rest.length + n' = s.rest'.length + n

theorem Inside.shifts {n n' : ℕ} {s s₁ : Seam} {c c' : Cursor} {closing : TokenKind} (h : s.Inside s₁ closing c c')
    (hs : s.Shifts n n') : s₁.Shifts n n' := by
  have := h.shift
  unfold Shifts at *
  omega

end Seam

namespace TokenParser

open Cursor Seam

/-- Two tokens are passed by a parser that has passed one behind another one that has. -/
theorem size_of_bind {α β : Type} {P : Cursor → Prop} {p : TokenParser α} {f : α → TokenParser β} (hp : Consumes P p)
    (hmoves : ∀ n, Forward n p) (hf : ∀ a, Consumes (fun _ => True) (f a)) {c : Cursor} (hc : c.Sound) (hpre : P c)
    {b : β} {k : Cursor} (hok : (p >>= f) c = .ok b k) : k.size + 2 ≤ c.size := by
  obtain ⟨a, c₁, hfirst, hsecond⟩ := bind_eq_ok.mp hok
  have := hp c hc hpre a c₁ hfirst
  have := hf a c₁ ((precedes_of_ok hmoves hc hfirst).sound hc) trivial b k hsecond
  omega

theorem isAtDotIdentifier_congr {c c' : Cursor} (hkind : c'.kind = c.kind) (hsecond : c'.secondKind = c.secondKind) :
    isAtDotIdentifier c' = isAtDotIdentifier c := by
  rw [isAtDotIdentifier, isAtDotIdentifier, isAt, isAt, hkind, hsecond]

/-- Whether a dot and an identifier come next, when both are passed then. -/
theorem decides_isAtDotIdentifier {s : Seam} (hs : s.Sound) {P : Cursor → Prop} {α : Type} {item : TokenParser α}
    (hitem : Consumes (fun _ => True) item) :
    s.Decides P isAtDotIdentifier isAtDotIdentifier (do let _ ← next; item) := by
  have hdot : ∀ c, isAtDotIdentifier c = true → c.kind = .dot := fun c h => isAt_iff.mp (kind_of_isAtDotIdentifier h)
  refine .of_second hs .dot rfl (by decide) hdot (fun c h => ?_)
    (fun c c' hkind _ hsecond => isAtDotIdentifier_congr hkind hsecond) fun c hc h a k hok => ?_
  · rw [isAtDotIdentifier, Bool.and_eq_true, beq_iff_eq] at h
    rw [h.2]
    decide
  · exact size_of_bind (P := (· = c)) (.next fun d hd => by rw [hd, hdot c h]; decide) (fun _ => .next) (fun _ => hitem) hc
      rfl hok

/-! ## Types -/

theorem unplaced_typeSegment {name name' : Ident} {arguments arguments' : List TypeArgument} {span span' : Span}
    (hname : unplaced name' = unplaced name) (harguments : unplaced arguments' = unplaced arguments) :
    unplaced (⟨name', arguments', span'⟩ : TypeSegment) = unplaced ⟨name, arguments, span⟩ := by
  show TypeSegment.bare _ = TypeSegment.bare _
  simp only [TypeSegment.bare]
  exact congrArg₂ (TypeSegment.mk · · default) hname harguments

theorem unplaced_userTypeOf (first : TypeSegment) (others : List TypeSegment) :
    unplaced (userTypeOf first others) = userTypeOf (unplaced first) (unplaced others) := by
  show UserType.bare _ = userTypeOf _ (others.map TypeSegment.bare)
  cases others with
  | nil =>
    simp only [userTypeOf, UserType.bare, List.map_nil]
    rfl
  | cons second others =>
    have hlast : ((second :: others).getLastD first).bare =
        ((second :: others).map TypeSegment.bare).getLastD first.bare := by
      rw [List.getLastD_eq_getLast?, List.getLastD_eq_getLast?, List.getLast?_map, Option.getD_map]
    simp only [userTypeOf, UserType.bare]
    rw [hlast, List.map_cons, List.map_dropLast]
    rfl

/-- Reads what is behind a type in parentheses. -/
def closeParenthesized : Option TypeRef → TokenParser (Option TypeElement)
  | none => return none
  | some inner => do
    if !(← eat .rightParen) then return none
    if ← test (·.isAt .arrow) then return none
    return some inner.element

theorem parenthesized_eq (type : TokenParser TypeRef) : parenthesized type = (do
    let _ ← next
    let inner ← attempt type
    closeParenthesized inner) := by
  unfold parenthesized closeParenthesized
  rfl

theorem closeParenthesized_some (t : TypeRef) (c : Cursor) : closeParenthesized (some t) c =
    if c.isAt .rightParen = true then
      if c.advance.isAt .arrow = true then .ok none c.advance else .ok (some t.element) c.advance
    else .ok none c := by
  simp only [closeParenthesized, bind_eq_match, eat]
  cases c.isAt .rightParen with
  | false => rfl
  | true =>
    simp only [if_true, Bool.not_true, Bool.false_eq_true, if_false, bind_eq_match, test]
    cases c.advance.isAt .arrow <;> rfl

/-- What opens with a parenthesis is the type in it, if there is one. -/
theorem parenthesizedOrFunction_of_some {type : TokenParser TypeRef} {c k : Cursor} {e : TypeElement}
    (h : parenthesized type c = .ok (some e) k) : parenthesizedOrFunction type c = .ok e k :=
  bind_eq_ok.mpr ⟨c, c, rfl, bind_eq_ok.mpr ⟨some e, k, h, rfl⟩⟩

/-- What opens with a parenthesis that has no type in it is a function type. -/
theorem parenthesizedOrFunction_of_none {type : TokenParser TypeRef} {c k : Cursor}
    (h : parenthesized type c = .ok none k) : parenthesizedOrFunction type c = functionTail type c.peek.span c := by
  unfold parenthesizedOrFunction
  rw [bind_eq_match]
  show (parenthesized type >>= _) c = _
  rw [bind_eq_match, h]
  rfl

/-- A type in parentheses is none where it is an error. -/
theorem exists_parenthesized_eq (type : TokenParser TypeRef) (c : Cursor) :
    ∃ found k, parenthesized type c = .ok found k := by
  rw [parenthesized_eq, bind_eq_match]
  simp only [next]
  rw [bind_eq_match, attempt]
  cases type c.advance with
  | error e k => exact ⟨_, _, rfl⟩
  | ok t k =>
    simp only [closeParenthesized_some]
    split
    · split <;> exact ⟨_, _, rfl⟩
    · exact ⟨_, _, rfl⟩

theorem forward_closeParenthesized (n : ℕ) (found : Option TypeRef) : Forward n (closeParenthesized found) := by
  cases found with
  | none => exact .pure _
  | some inner => exact .bind (.eat _) fun _ => .ite (.pure _) (.ite_test (.pure _) (.pure _))

theorem forward_parenthesizedOrFunction {type : TokenParser TypeRef} (htype : ∀ n, Forward n type) (n : ℕ) :
    Forward n (parenthesizedOrFunction type) := by
  have hparens : Forward n (parenthesized type) := by
    rw [parenthesized_eq]
    exact .bind .next fun _ => .bind (.attempt (htype n)) (forward_closeParenthesized n)
  intro c hc hless
  unfold parenthesizedOrFunction
  refine AlikeAt.bind ⟨rfl, .refl⟩ fun start c' _ hok => ?_
  cases hok
  refine (hparens c hc hless).bind fun found c' hmoves _ => ?_
  cases found with
  | some element => exact ⟨rfl, hmoves⟩
  | none => exact (alike_functionTail (htype n) c.peek.span).mono n.le_succ c hc hless

theorem consumes_functionTail {P : Cursor → Prop} {type : TokenParser TypeRef} (htype : ∀ n, Forward n type)
    (start : Span) : Consumes P (functionTail type start) := by
  unfold functionTail
  refine .ite_test (fun c _ _ e k hok => ?_) (.bind (.of_strict fun n => strict_skipGroup _) forward_skipGroup fun _ n => ?_)
  · obtain ⟨_, _, hfail, -⟩ := bind_eq_ok.mp hok
    contradiction
  · exact .bind (.expect _) fun _ => .bind (htype n) fun _ => .bind (.spanFrom _) fun _ => .pure _

theorem consumes_parenthesizedOrFunction {type : TokenParser TypeRef} (htype : ∀ n, Forward n type) :
    Consumes (fun c => c.kind = .leftParen) (parenthesizedOrFunction type) := by
  intro c hc hparen e k hok
  unfold parenthesizedOrFunction at hok
  obtain ⟨_, _, hhere, hok⟩ := bind_eq_ok.mp hok
  cases hhere
  obtain ⟨found, c₁, hparens, hok⟩ := bind_eq_ok.mp hok
  cases found with
  | none => exact consumes_functionTail (P := fun _ => True) htype c.peek.span c hc trivial e k hok
  | some element =>
    cases hok
    refine Consumes.bind (P := fun c => c.kind = .leftParen) (.next fun d hd => by rw [hd]; nofun) (fun _ => .next)
      (fun _ n => ?_) c hc hparen (some e) k (parenthesized_eq type ▸ hparens)
    exact .bind (.attempt (htype n)) (forward_closeParenthesized n)

/-- What opens with a parenthesis begins with a group. -/
theorem parenthesizedOrFunction_group {type : TokenParser TypeRef} (hmoves : ∀ n, Forward n type)
    (htype : Passes false true (fun _ => True) type) {c k : Cursor} {e : TypeElement} (hc : c.Sound) (hparen : c.kind = .leftParen)
    (hok : parenthesizedOrFunction type c = .ok e k) :
    ∃ inner t rest, c.advance.rest = inner ++ t :: rest ∧ Run false true inner ∧ t.kind = .rightParen ∧
      k.rest.length ≤ rest.length := by
  obtain ⟨ts, hts, -, hrun⟩ := takes_parenthesizedOrFunction htype c hc hparen e k hok
  have hless := consumes_parenthesizedOrFunction hmoves c hc hparen e k hok
  cases ts with
  | nil =>
    rw [size, size, hts, List.nil_append] at hless
    omega
  | cons u us =>
    have hkind : u.kind = .leftParen := by rw [← hparen, kind, peek, peekNth, hts]; rfl
    have hadvance : c.advance.rest = us ++ k.rest := by rw [advance, hts]; rfl
    rcases hrun.cons_cases with ⟨hopening, -, -⟩ | ⟨inner, t, rest, rfl, hpair, hinner, -⟩
    · rw [hkind] at hopening
      contradiction
    · rw [hkind] at hpair
      exact ⟨inner, t, rest ++ k.rest, by rw [hadvance]; simp, hinner, (Option.some.inj hpair).symm, by simp⟩

theorem unplaced_element {t t' : TypeRef} (h : unplaced t' = unplaced t) :
    unplaced t'.element = unplaced t.element := by
  obtain ⟨element, annotations, text, span⟩ := t
  obtain ⟨element', annotations', text', span'⟩ := t'
  have h : TypeRef.bare _ = TypeRef.bare _ := h
  simp only [TypeRef.bare, TypeRef.mk.injEq] at h
  exact h.1

theorem Consumes.bind_nextSpan {P : Cursor → Prop} {β : Type} {f : Span → TokenParser β} (h : ∀ span, Consumes P (f span)) :
    Consumes P (nextSpan >>= f) :=
  fun c hc hpre b k hok => h c.peek.span c hc hpre b k hok

/-- Reads the shape of a type that begins with a token of a given kind, without the question marks. -/
def elementFrom (type : TokenParser TypeRef) : TokenKind → TokenParser TypeElement
  | .leftParen => parenthesizedOrFunction type
  | .identifier => namedOrFunction type
  | _ => failAtNext expectedType

/-- Reads the question marks behind a type. -/
def questionMarks (e : TypeElement) : TokenParser TypeElement := do
  let marks ← manyWhile (·.isAt .question) next
  return nullable marks.length e

theorem typeElement_eq (type : TokenParser TypeRef) :
    typeElement type = here >>= fun c => elementFrom type c.kind >>= questionMarks := by
  unfold typeElement elementFrom
  refine congrArg (here >>= ·) (funext fun c => ?_)
  generalize c.kind = kind
  cases kind <;> rfl

theorem forward_questionMarks (n : ℕ) (e : TypeElement) : Forward n (questionMarks e) :=
  .bind (.manyWhile .next) fun _ => .pure _

theorem forward_elementFrom {type : TokenParser TypeRef} (htype : ∀ n, Forward n type) (kind : TokenKind) (n : ℕ) :
    Forward n (elementFrom type kind) := by
  unfold elementFrom
  split
  · exact forward_parenthesizedOrFunction htype n
  · exact (alike_namedOrFunction (htype n)).mono n.le_succ
  · exact .failAtNext _

theorem consumes_elementFrom {type : TokenParser TypeRef} (htype : ∀ n, Forward n type) (kind : TokenKind) :
    Consumes (fun c => c.kind = kind) (elementFrom type kind) := by
  unfold elementFrom
  split
  · exact consumes_parenthesizedOrFunction htype
  · unfold namedOrFunction
    refine .bind_nextSpan fun start => .bind (.of_strict fun m => strict_userTypeWith (htype m))
      (fun m => (strict_userTypeWith (htype m)).fewer) fun user n => ?_
    exact .ite_test (.bind .next fun _ => (alike_functionTail (htype n) start).mono n.le_succ) (.pure _)
  · intro c _ _ e k hok
    contradiction

/-- A type has a token in its shape. -/
theorem consumes_typeElement {P : Cursor → Prop} {type : TokenParser TypeRef} (htype : ∀ n, Forward n type) :
    Consumes P (typeElement type) := by
  intro c hc _ e k hok
  rw [typeElement_eq] at hok
  exact Consumes.bind (consumes_elementFrom htype c.kind) (forward_elementFrom htype _)
    (fun e n => forward_questionMarks n e) c hc rfl e k hok

theorem unplaced_nullable {e e' : TypeElement} (h : unplaced e' = unplaced e) (n : ℕ) :
    unplaced (nullable n e') = unplaced (nullable n e) := by
  induction n generalizing e e' with
  | zero => exact h
  | succ n ih =>
    refine ih ?_
    show TypeElement.bare _ = TypeElement.bare _
    simp only [TypeElement.bare]
    exact congrArg _ h

/-- Whether a parser of types, in front of all seams behind which the one file is so much longer, does the same as
another one. -/
structure TypesFollow (n n' : ℕ) (type type' : TokenParser TypeRef) : Prop where
  follows : ∀ s : Seam, s.Sound → s.Shifts n n' → Follows s (fun _ => True) type type'
  moves : ∀ n, Forward n type
  consumes : Consumes (fun _ => True) type
  takes : Passes false true (fun _ => True) type

theorem isAtVariance_congr {c c' : Cursor} (hkind : c'.kind = c.kind) (hlexeme : c'.peek.lexeme = c.peek.lexeme)
    (hsecond : c'.secondKind = c.secondKind) : isAtVariance c' = isAtVariance c := by
  simp only [isAtVariance, isAtWord, isAt, hkind, hlexeme, hsecond]

theorem secondKind_of_isAtVariance {c : Cursor} (h : isAtVariance c = true) :
    c.secondKind ∉ [TokenKind.fun, .val, .var] := by
  simp only [isAtVariance, Bool.and_eq_true, Bool.or_eq_true, beq_iff_eq] at h
  rcases h.2 with (h | h) | h <;> rw [h] <;> decide

section Types

variable {s : Seam} {P : Cursor → Prop} {n n' : ℕ} {type type' : TokenParser TypeRef} (hs : s.Sound)

omit hs in
theorem consumes_typeSegment (htype : TypesFollow n n' type type') (start : Span) :
    Consumes (fun _ => True) (TokenParser.typeSegment type start) :=
  .of_strict fun m => strict_typeSegment (htype.moves m) start

namespace Follows

include hs in
theorem dotIdentifiers : Follows s P (TokenParser.manyWhile isAtDotIdentifier dotIdentifier)
    (TokenParser.manyWhile isAtDotIdentifier dotIdentifier) := by
  refine .manyWhile (decides_isAtDotIdentifier hs .identifier) ?_
  refine .bind (.next hs fun c h => ?_) fun _ _ _ => .identifier hs
  rw [isAt_iff.mp (kind_of_isAtDotIdentifier h)]
  rfl

variable (hshift : s.Shifts n n') (htype : TypesFollow n n' type type')

include hs hshift htype

theorem typeArgument : Follows s P (TokenParser.typeArgument type) (TokenParser.typeArgument type') := by
  unfold TokenParser.typeArgument
  have hread : ∀ {P}, Follows s P (type >>= fun t => Pure.pure (TypeArgument.type t))
      (type' >>= fun t => Pure.pure (TypeArgument.type t)) :=
    fun {_} => .bind (htype.follows s hs hshift).anywhere fun t t' ht => .pure (by
      show TypeArgument.bare _ = TypeArgument.bare _
      simp only [TypeArgument.bare]
      exact congrArg _ ht)
  refine .bind (.eat? hs rfl (.inr (by decide))) fun star star' hstar => ?_
  cases star with
  | some t =>
    cases star' with
    | none => contradiction
    | some t' =>
      refine .pure ?_
      show TypeArgument.bare _ = TypeArgument.bare _
      simp only [TypeArgument.bare]
  | none =>
    cases star' with
    | some t' => contradiction
    | none =>
      refine .ite_test ?_ (.bind (.next hs fun c h => ?_) fun _ _ _ => hread) hread
      · refine .of_second hs .identifier rfl (by decide) (fun _ => kind_of_isAtVariance)
          (fun _ => secondKind_of_isAtVariance) (fun _ _ => isAtVariance_congr) fun c hc h a k hok => ?_
        refine size_of_bind (P := (· = c)) (.next fun d hd => ?_) (fun _ => .next) (fun _ => ?_) hc rfl hok
        · rw [hd, kind_of_isAtVariance h]
          decide
        · exact .bind htype.consumes htype.moves fun _ _ => .pure _
      · rw [kind_of_isAtVariance h.2]
        rfl

theorem typeArguments : Follows s P (TokenParser.typeArguments type) (TokenParser.typeArguments type') := by
  unfold TokenParser.typeArguments
  refine .bind (.expect hs rfl) fun _ _ _ => .bind (typeArgument hs hshift htype) fun first first' hfirst => ?_
  refine .bind (.manyWhile (.isAt hs (.inr (by decide))) ?_) fun others others' hothers => ?_
  · exact .bind (.next hs fun c h => isAt_iff.mp h ▸ rfl) fun _ _ _ => typeArgument hs hshift htype
  · exact .bind (.expect hs rfl) fun _ _ _ => .pure (congrArg₂ List.cons hfirst hothers)

theorem typeSegment (start start' : Span) :
    Follows s P (TokenParser.typeSegment type start) (TokenParser.typeSegment type' start') := by
  unfold TokenParser.typeSegment
  refine .bind (.identifier hs) fun name name' hname => ?_
  have hread : ∀ {P} (arguments arguments' : List TypeArgument), unplaced arguments' = unplaced arguments →
      Follows s P (do return (⟨name, arguments, ← TokenParser.spanFrom start⟩ : TypeSegment))
        (do return (⟨name', arguments', ← TokenParser.spanFrom start'⟩ : TypeSegment)) :=
    fun {_} _ _ h => .bind (.spanFrom _ _) fun _ _ _ => .pure (unplaced_typeSegment hname h)
  refine .ite_test (.isAt hs (.inr (by decide))) ?_ (.bind (.pure rfl) hread)
  exact .bind (typeArguments hs hshift htype) hread

theorem userTypeWith : Follows s P (TokenParser.userTypeWith type) (TokenParser.userTypeWith type') := by
  unfold TokenParser.userTypeWith
  refine .bind .nextSpan fun start start' _ => .bind (typeSegment hs hshift htype start start') fun first first' hfirst => ?_
  refine .bind (.manyWhile (decides_isAtDotIdentifier hs (consumes_typeSegment htype start)) ?_)
    fun others others' hothers => .pure ?_
  · refine .bind (.next hs fun c h => ?_) fun _ _ _ => typeSegment hs hshift htype start start'
    rw [isAt_iff.mp (kind_of_isAtDotIdentifier h)]
    rfl
  · rw [unplaced_userTypeOf, unplaced_userTypeOf, hfirst, hothers]

theorem functionTail (start start' : Span) :
    Follows s P (TokenParser.functionTail type start) (TokenParser.functionTail type' start') := by
  unfold TokenParser.functionTail
  have hread : ∀ {P}, Follows s P (do
      TokenParser.skipGroup
      let _ ← TokenParser.expect .arrow
      let _ ← type
      return TypeElement.function (← TokenParser.spanFrom start)) (do
      TokenParser.skipGroup
      let _ ← TokenParser.expect .arrow
      let _ ← type'
      return TypeElement.function (← TokenParser.spanFrom start')) := by
    refine fun {_} => .bind (skipGroup hs) fun _ _ _ => .bind (.expect hs rfl) fun _ _ _ => ?_
    exact .bind (htype.follows s hs hshift) fun _ _ _ => .bind (.spanFrom _ _) fun _ _ _ => .pure (by
      show TypeElement.bare _ = TypeElement.bare _
      simp only [TypeElement.bare])
  refine .ite_test (.of_eq fun c c' hnear _ => ?_) (.bind (.failAtNext _ _) fun _ _ _ => hread) hread
  rw [hnear.isAt hs (.inr (by decide))]

/-- A type in parentheses is read, or is none, in both files. -/
theorem parenthesized {s₁ : Seam} {c c' k : Cursor} {found : Option TypeElement}
    (hinside : s.Inside s₁ .rightParen c c') (hok : TokenParser.parenthesized type c = .ok found k) :
    ∃ found' k', TokenParser.parenthesized type' c' = .ok found' k' ∧ unplaced found' = unplaced found ∧
      (found.isSome = true → s.Near k k') := by
  have hinner : Follows s₁ (fun _ => True) (TokenParser.attempt type) (TokenParser.attempt type') :=
    .attempt hinside.isClosed (htype.follows s₁ hinside.sound (hinside.shifts hshift))
  rw [parenthesized_eq] at hok ⊢
  obtain ⟨_, c₁, hnext, hok⟩ := bind_eq_ok.mp hok
  cases hnext
  obtain ⟨inner, c₂, htry, hok⟩ := bind_eq_ok.mp hok
  obtain ⟨inner', c₂', htry', hinner', hnear⟩ :=
    (hinner.tracks _ _ hinside.near trivial).ok inner c₂ htry (.inl hinside.isClosed)
  suffices h : ∃ found' k', closeParenthesized inner' c₂' = .ok found' k' ∧ unplaced found' = unplaced found ∧
      (found.isSome = true → s.Near k k') by
    obtain ⟨found', k', hclose, h⟩ := h
    exact ⟨found', k', bind_eq_ok.mpr ⟨_, _, rfl, bind_eq_ok.mpr ⟨_, _, htry', hclose⟩⟩, h⟩
  cases inner with
  | none =>
    cases inner' with
    | some _ => contradiction
    | none =>
      cases hok
      exact ⟨none, c₂', rfl, rfl, nofun⟩
  | some t =>
    cases inner' with
    | none => contradiction
    | some t' =>
      have hparen : c₂'.isAt .rightParen = c₂.isAt .rightParen := hnear.isAt hinside.sound (.inl hinside.isClosed)
      rw [closeParenthesized_some] at hok ⊢
      rw [hparen]
      split at hok
      · next hclosing =>
        obtain ⟨-, -, hbehind⟩ := hinside.atSeam hnear (isAt_iff.mp hclosing ▸ rfl)
        rw [if_pos hclosing, hbehind.isAt hs (.inr (by decide))]
        split at hok
        · next harrow =>
          cases hok
          exact ⟨none, _, if_pos harrow, rfl, nofun⟩
        · next harrow =>
          cases hok
          exact ⟨some t'.element, _, if_neg harrow, congrArg some (unplaced_element (Option.some.inj hinner')), fun _ => hbehind⟩
      · next hclosing =>
        cases hok
        exact ⟨none, _, if_neg hclosing, rfl, nofun⟩

theorem parenthesizedOrFunction : Follows s (fun c => c.kind = .leftParen) (TokenParser.parenthesizedOrFunction type)
    (TokenParser.parenthesizedOrFunction type') := by
  refine ⟨fun c c' hnear hparen => ?_, forward_parenthesizedOrFunction htype.moves⟩
  have hpair : c.kind.closing? = some .rightParen := by
    rw [hparen]
    rfl
  -- where the group ends in front of the seam, what is in it is the same in both files
  have hgo : ∀ s₁, s.Inside s₁ .rightParen c c' → s.Tracks (TokenParser.parenthesizedOrFunction type c)
      (TokenParser.parenthesizedOrFunction type' c') := by
    intro s₁ hinside
    obtain ⟨found, k, hparens⟩ := exists_parenthesized_eq type c
    obtain ⟨found', k', hparens', hfound, hnear'⟩ := parenthesized hs hshift htype hinside hparens
    cases found with
    | some element =>
      cases found' with
      | none => contradiction
      | some element' =>
        rw [parenthesizedOrFunction_of_some hparens, parenthesizedOrFunction_of_some hparens']
        exact ⟨fun a m hok _ => by cases hok; exact ⟨_, _, rfl, Option.some.inj hfound, hnear' rfl⟩,
          fun _ _ _ h => by contradiction⟩
    | none =>
      cases found' with
      | some element' => contradiction
      | none =>
        rw [parenthesizedOrFunction_of_none hparens, parenthesizedOrFunction_of_none hparens']
        exact (functionTail (P := fun _ => True) hs hshift htype c.peek.span c'.peek.span).tracks c c' hnear trivial
  cases hclosed : s.isClosed with
  | true =>
    obtain ⟨s₁, hinside⟩ := hnear.exists_inside hs hpair hclosed
    exact hgo s₁ hinside
  | false =>
    refine ⟨fun e k hok hk => ?_, fun h => by rw [hclosed] at h; contradiction⟩
    obtain ⟨inner, t, rest, hadvance, hinner, ht, hrest⟩ := parenthesizedOrFunction_group htype.moves htype.takes hnear.sound hparen hok
    have hlength : s.rest.length ≤ rest.length :=
      Nat.le_trans (hk.resolve_left (by rw [hclosed]; decide)) hrest
    obtain ⟨s₁, hinside⟩ := hnear.exists_inside_of_rest (ht ▸ rfl) hadvance hinner hlength hclosed
    exact (hgo s₁ (ht ▸ hinside)).ok e k hok hk

theorem namedOrFunction : Follows s P (TokenParser.namedOrFunction type) (TokenParser.namedOrFunction type') := by
  unfold TokenParser.namedOrFunction
  refine .bind .nextSpan fun start start' _ => .bind (userTypeWith hs hshift htype) fun user user' huser => ?_
  refine .ite_test ?_ (.bind (.next hs fun c h => ?_) fun _ _ _ => functionTail hs hshift htype _ _) (.pure ?_)
  · refine .of_second hs .dot rfl (by decide) (fun c h => ?_) (fun c h => ?_) (fun c c' hkind _ hsecond => ?_)
      fun c hc h a k hok => ?_
    · rw [Bool.and_eq_true] at h
      exact isAt_iff.mp h.1
    · rw [Bool.and_eq_true, beq_iff_eq] at h
      rw [h.2]
      decide
    · rw [isAt, isAt, hkind, hsecond]
    · rw [Bool.and_eq_true] at h
      refine size_of_bind (P := (· = c)) (.next fun d hd => ?_) (fun _ => .next) (fun _ => ?_) hc rfl hok
      · rw [hd, isAt_iff.mp h.1]
        decide
      · exact consumes_functionTail htype.moves _
  · rw [Bool.and_eq_true] at h
    rw [isAt_iff.mp h.2.1]
    rfl
  · show TypeElement.bare _ = TypeElement.bare _
    simp only [TypeElement.bare]
    exact congrArg _ huser

omit hshift htype in
theorem questionMarks (e e' : TypeElement) (he : unplaced e' = unplaced e) :
    Follows s P (TokenParser.questionMarks e) (TokenParser.questionMarks e') := by
  refine .bind (.manyWhile (.isAt hs (.inr (by decide))) (.next hs fun c h => ?_)) fun marks marks' hmarks => .pure ?_
  · exact isAt_iff.mp h ▸ rfl
  · have hlength : marks'.length = marks.length := by simpa [unplaced] using congrArg List.length hmarks
    rw [hlength]
    exact unplaced_nullable he _

theorem typeElement : Follows s P (TokenParser.typeElement type) (TokenParser.typeElement type') := by
  rw [typeElement_eq, typeElement_eq]
  have hmoves : ∀ kind n, Forward n (elementFrom type kind >>= TokenParser.questionMarks) := fun kind n =>
    .bind (forward_elementFrom htype.moves kind n) (forward_questionMarks n)
  refine .here_bind (fun d d' hnear _ => ?_) fun n => .bind .here fun d => hmoves d.kind n
  rcases hnear.kind hs with hkind | ⟨hopen, -, hsize, -⟩
  · rw [hkind]
    refine .bind ?_ (questionMarks hs)
    unfold elementFrom
    split
    · next hparen => exact (parenthesizedOrFunction hs hshift htype).weaken fun c hc => hc ▸ hparen
    · exact namedOrFunction hs hshift htype
    · exact .failAtNext _ _
  · refine ⟨fun c c' hnear' hc => .of_beyond hopen fun e k hok => ?_, hmoves d.kind⟩
    subst hc
    rw [← hsize]
    exact Consumes.bind (consumes_elementFrom htype.moves c.kind) (forward_elementFrom htype.moves _)
      (fun e n => forward_questionMarks n e) c hnear.sound rfl e k hok

end Follows

end Types

end TokenParser

end ServiceCatalog
