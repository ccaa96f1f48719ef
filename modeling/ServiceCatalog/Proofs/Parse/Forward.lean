import ServiceCatalog.Proofs.Parse.Heads

/-!
# Moving on

A parser stops at a later place of the file than where it was called, or at the same place, also where it fails.
Since the file ends, this bounds what it can do: a loop ends if each of its turns passes a token, and the recursion
of types and values ends if each call inside a type or a value is made behind a token.

Both need the same walk through the text of the parsers, and so they are one notion.  `Alike n p q` says that `p` and
`q` answer the same where fewer than `n` tokens are to come, and that they only move on there; `Forward n p` is the
second half alone.  A construct over two parsers of types that are alike for `n` is alike for `n + 1` if it calls them
only behind a token.  Inside a construct that goes back, a parser may stop in front of where it is called, but not in
front of where the construct began (`AlikeAt`).

`Consumes P p` says that `p` has passed a token where it succeeds, if `P` holds of the place where it is called.
Parsers are `Strict` that are alike and consume a token wherever they are called; behind them, others need to be alike
for one token less (`Strict.bind`).
-/

namespace ServiceCatalog

/-! ## Later places of a file -/

namespace Cursor

/-- Whether a cursor stands at a later place of the same file, or at the same place. -/
def Precedes (c c' : Cursor) : Prop := ∃ n, c' = c.skip n

variable {c c' c'' : Cursor}

theorem skip_zero (c : Cursor) : c.skip 0 = c := rfl

theorem skip_skip (c : Cursor) (m n : Nat) : (c.skip m).skip n = c.skip (m + n) := by
  simp only [skip, List.drop_drop, List.take_add, List.getLast?_append, Option.or_assoc]

theorem advance_eq_skip (c : Cursor) : c.advance = c.skip 1 := by
  obtain ⟨previous, _ | ⟨t, ts⟩, eof⟩ := c <;> rfl

/-- At the end of the file there is no later place. -/
theorem skip_of_rest_eq_nil (h : c.rest = []) (n : Nat) : c.skip n = c := by
  obtain ⟨previous, rest, eof⟩ := c
  obtain rfl : rest = [] := h
  simp [skip]

namespace Precedes

theorem refl : c.Precedes c := ⟨0, rfl⟩

theorem trans (h : c.Precedes c') (h' : c'.Precedes c'') : c.Precedes c'' := by
  obtain ⟨m, rfl⟩ := h
  obtain ⟨n, rfl⟩ := h'
  exact ⟨m + n, skip_skip c m n⟩

theorem advance : c.Precedes c.advance := ⟨1, advance_eq_skip c⟩

theorem skip (n : Nat) : c.Precedes (c.skip n) := ⟨n, rfl⟩

theorem size_le (h : c.Precedes c') : c'.size ≤ c.size := by
  obtain ⟨n, rfl⟩ := h
  rw [size_skip]
  omega

theorem sound (h : c.Precedes c') (hc : c.Sound) : c'.Sound := by
  obtain ⟨n, rfl⟩ := h
  exact ⟨hc.eof, fun t ht => hc.rest t (List.mem_of_mem_drop ht)⟩

/-- Where no token has been passed, the place is the same. -/
theorem eq_of_size_le (h : c.Precedes c') (hsize : c.size ≤ c'.size) : c' = c := by
  obtain ⟨n, rfl⟩ := h
  rw [size_skip] at hsize
  by_cases hrest : c.rest = []
  · exact skip_of_rest_eq_nil hrest n
  · have hpos : 0 < c.size := List.length_pos_iff.mpr hrest
    obtain rfl : n = 0 := by omega
    rfl

end Precedes

end Cursor

namespace TokenParser

open Cursor

/-- Where a parser stopped, be it that it failed there. -/
def stop {σ α : Type} : EStateM.Result ParseError σ α → σ
  | .ok _ s => s
  | .error _ s => s

/-! ## Parsers that agree and move on -/

/-- Whether two parsers answer the same at a cursor, and stop no earlier than at a given one. -/
def AlikeAt (start c : Cursor) {α : Type} (p q : TokenParser α) : Prop := p c = q c ∧ start.Precedes (stop (p c))

/-- Whether two parsers answer the same, and only move on, where fewer than a number of tokens are to come. -/
def Alike (n : Nat) {α : Type} (p q : TokenParser α) : Prop := ∀ c, c.Sound → c.size < n → AlikeAt c c p q

/-- Whether a parser only moves on where fewer than a number of tokens are to come. -/
abbrev Forward (n : Nat) {α : Type} (p : TokenParser α) : Prop := Alike n p p

/-- Whether a parser has passed a token where it succeeds, if it is called under a condition. -/
def Consumes (P : Cursor → Prop) {α : Type} (p : TokenParser α) : Prop :=
  ∀ c, c.Sound → P c → ∀ a c', p c = .ok a c' → c'.size < c.size

/-- Whether two parsers are alike and have passed a token where they succeed. -/
structure Strict (n : Nat) {α : Type} (p q : TokenParser α) : Prop where
  alike : Alike n p q
  consumes : Consumes (fun c => c.size < n) p

/-- A parser behind another one goes on where that one succeeds. -/
theorem bind_eq_match {σ α β : Type} (p : EStateM ParseError σ α) (f : α → EStateM ParseError σ β) (s : σ) :
    (p >>= f) s = match p s with
      | .ok a s' => f a s'
      | .error e s' => .error e s' := by
  show EStateM.bind p f s = _
  unfold EStateM.bind
  cases p s <;> rfl

namespace AlikeAt

variable {start c : Cursor} {α β : Type} {p p' : TokenParser α} {f f' : α → TokenParser β}

theorem symm (h : AlikeAt start c p p') : AlikeAt start c p' p := ⟨h.1.symm, h.1 ▸ h.2⟩

/-- What stands behind a parser begins where that one stopped. -/
theorem bind (hp : AlikeAt start c p p')
    (hf : ∀ a c', start.Precedes c' → p c = .ok a c' → AlikeAt start c' (f a) (f' a)) :
    AlikeAt start c (p >>= f) (p' >>= f') := by
  obtain ⟨heq, hmoves⟩ := hp
  unfold AlikeAt
  rw [bind_eq_match, bind_eq_match, ← heq]
  cases hfirst : p c with
  | error e c' =>
    rw [hfirst] at hmoves
    exact ⟨rfl, hmoves⟩
  | ok a c' =>
    rw [hfirst] at hmoves
    exact hf a c' hmoves hfirst

end AlikeAt

namespace Alike

variable {m n : Nat} {α β : Type} {p p' q q' : TokenParser α} {f f' : α → TokenParser β}

theorem mono (hmn : m ≤ n) (h : Alike n p q) : Alike m p q :=
  fun c hc hless => h c hc (Nat.lt_of_lt_of_le hless hmn)

theorem trans {r : TokenParser α} (h : Alike n p q) (h' : Alike n q r) : Alike n p r :=
  fun c hc hless => ⟨(h c hc hless).1.trans (h' c hc hless).1, (h c hc hless).2⟩

/-- Parsers that are alike move on from any earlier place too. -/
theorem since {start c : Cursor} (h : Alike n p q) (hmoves : start.Precedes c) (hc : start.Sound)
    (hless : start.size < n) : AlikeAt start c p q :=
  (h c (hmoves.sound hc) (Nat.lt_of_le_of_lt hmoves.size_le hless)).imp_right hmoves.trans

/-- A parser that moves on wherever it is called is like itself. -/
theorem of_precedes (h : ∀ c : Cursor, c.Precedes (stop (p c))) : Forward n p := fun c _ _ => ⟨rfl, h c⟩

theorem pure (a : α) : Forward n (Pure.pure a : TokenParser α) := of_precedes fun _ => .refl

theorem here : Forward n TokenParser.here := of_precedes fun _ => .refl

theorem nextSpan : Forward n TokenParser.nextSpan := of_precedes fun _ => .refl

theorem test (t : Cursor → Bool) : Forward n (TokenParser.test t) := of_precedes fun _ => .refl

theorem next : Forward n TokenParser.next := of_precedes fun _ => .advance

theorem spanFrom (start : Span) : Forward n (TokenParser.spanFrom start) := of_precedes fun _ => .refl

theorem textSince (start : Cursor) : Forward n (TokenParser.textSince start) := of_precedes fun _ => .refl

theorem failAtNext (e : Token → ParseError) : Forward n (TokenParser.failAtNext e : TokenParser α) :=
  of_precedes fun _ => .refl

/-- Passing the next token under a test of it, and staying there otherwise. -/
private theorem ofTest {t : Cursor → Bool} {r s : Cursor → EStateM.Result ParseError Cursor α}
    (hp : ∀ c, p c = if t c = true then r c else s c) (hr : ∀ c, stop (r c) = c.advance)
    (hs : ∀ c, stop (s c) = c) : Forward n p := by
  refine of_precedes fun c => ?_
  rw [hp]
  split
  · rw [hr]
    exact .advance
  · rw [hs]
    exact .refl

theorem eat (k : TokenKind) : Forward n (TokenParser.eat k) :=
  ofTest (fun _ => rfl) (fun _ => rfl) fun _ => rfl

theorem eat? (k : TokenKind) : Forward n (TokenParser.eat? k) :=
  ofTest (fun _ => rfl) (fun _ => rfl) fun _ => rfl

theorem eatWord (word : String) : Forward n (TokenParser.eatWord word) :=
  ofTest (fun _ => rfl) (fun _ => rfl) fun _ => rfl

theorem expect (k : TokenKind) : Forward n (TokenParser.expect k) :=
  ofTest (fun _ => rfl) (fun _ => rfl) fun _ => rfl

theorem identifier : Forward n TokenParser.identifier :=
  ofTest (fun _ => rfl) (fun _ => rfl) fun _ => rfl

/-- Parsers behind parsers that are alike are called where the first ones have left fewer than `m` tokens. -/
theorem bind_of (hp : Alike n p p')
    (hmid : ∀ c, c.Sound → c.size < n → ∀ a c', p c = .ok a c' → c'.size < m)
    (hf : ∀ a, Alike m (f a) (f' a)) : Alike n (p >>= f) (p' >>= f') := by
  refine fun c hc hless => (hp c hc hless).bind fun a c' hmoves hok => ?_
  exact (hf a c' (hmoves.sound hc) (hmid c hc hless a c' hok)).imp_right hmoves.trans

theorem bind (hp : Alike n p p') (hf : ∀ a, Alike n (f a) (f' a)) : Alike n (p >>= f) (p' >>= f') :=
  fun c hc hless => (hp c hc hless).bind fun a _ hmoves _ => (hf a).since hmoves hc hless

/-- The next token, unless it is the end of the file, is one of those to come. -/
theorem next_bind {c : Cursor} {f f' : Token → TokenParser β} (hc : c.Sound) (hend : c.kind ≠ .eof)
    (hless : c.size < n + 1) (hf : ∀ t, Alike n (f t) (f' t)) :
    AlikeAt c c (TokenParser.next >>= f) (TokenParser.next >>= f') := by
  refine AlikeAt.bind ⟨rfl, .advance⟩ fun t c' hmoves hok => ?_
  cases hok
  have hbehind : c.advance.size < n := by
    have := size_advance_lt hc hend
    omega
  exact (hf _ c.advance hc.advance hbehind).imp_right hmoves.trans

theorem ite {b : Bool} (hp : Alike n p p') (hq : Alike n q q') :
    Alike n (if b = true then p else q) (if b = true then p' else q') := by
  cases b
  · exact hq
  · exact hp

theorem ite_test {t : Cursor → Bool} (hp : Alike n p p') (hq : Alike n q q') :
    Alike n (TokenParser.test t >>= fun b => if b = true then p else q)
      (TokenParser.test t >>= fun b => if b = true then p' else q') :=
  bind (test t) fun _ => ite hp hq

theorem manyWhile {t : Cursor → Bool} (hp : Alike n p p') :
    Alike n (TokenParser.manyWhile t p) (TokenParser.manyWhile t p') := by
  intro c hc hless
  induction hsize : c.size using Nat.strongRecOn generalizing c with
  | _ size ih =>
    obtain ⟨heq, hmoves⟩ := hp c hc hless
    unfold AlikeAt
    rw [TokenParser.manyWhile.eq_def t p, TokenParser.manyWhile.eq_def t p', ← heq]
    by_cases ht : t c = true
    · simp only [if_pos ht]
      cases hfirst : p c with
      | error e c₁ =>
        rw [hfirst] at hmoves
        exact ⟨rfl, hmoves⟩
      | ok a c₁ =>
        rw [hfirst] at hmoves
        by_cases hturn : c₁.size < c.size
        · obtain ⟨heq', hmoves'⟩ :=
            ih c₁.size (hsize ▸ hturn) c₁ (hmoves.sound hc) (Nat.lt_trans hturn hless) rfl
          simp only [if_pos hturn, ← heq']
          cases hothers : TokenParser.manyWhile t p c₁ <;> rw [hothers] at hmoves' <;>
            exact ⟨trivial, hmoves.trans hmoves'⟩
        · simp only [if_neg hturn]
          exact ⟨trivial, hmoves⟩
    · simp only [if_neg ht]
      exact ⟨trivial, .refl⟩

/-- What is tried is given up at the place where it began. -/
theorem attempt (hp : Alike n p p') : Alike n (TokenParser.attempt p) (TokenParser.attempt p') := by
  intro c hc hless
  obtain ⟨heq, hmoves⟩ := hp c hc hless
  unfold AlikeAt
  rw [TokenParser.attempt, TokenParser.attempt, ← heq]
  cases hfirst : p c with
  | ok a c' =>
    rw [hfirst] at hmoves
    exact ⟨rfl, hmoves⟩
  | error e c' => exact ⟨rfl, .refl⟩

end Alike

/-- A parser that is like itself everywhere moves on. -/
theorem precedes_stop {α : Type} {p : TokenParser α} (h : ∀ n, Forward n p) {c : Cursor} (hc : c.Sound) :
    c.Precedes (stop (p c)) :=
  (h (c.size + 1) c hc (Nat.lt_succ_self _)).2

theorem precedes_of_ok {α : Type} {p : TokenParser α} (h : ∀ n, Forward n p) {c c' : Cursor} {a : α} (hc : c.Sound)
    (hok : p c = .ok a c') : c.Precedes c' := by
  have hmoves := precedes_stop h hc
  rwa [hok] at hmoves

/-! ## Parsers that pass a token -/

namespace Consumes

variable {P : Cursor → Prop} {α β : Type} {p q : TokenParser α} {f : α → TokenParser β}

theorem weaken {P' : Cursor → Prop} (h : ∀ c, P c → P' c) (hp : Consumes P' p) : Consumes P p :=
  fun c hc hpre => hp c hc (h c hpre)

theorem next (h : ∀ c, P c → c.kind ≠ .eof) : Consumes P TokenParser.next := by
  intro c hc hpre a c' hok
  cases hok
  exact size_advance_lt hc (h c hpre)

theorem expect {k : TokenKind} (hk : k ≠ .eof) : Consumes P (TokenParser.expect k) := by
  intro c hc _ a c' hok
  obtain ⟨rfl, -, rfl⟩ := expect_eq_ok.mp hok
  exact size_advance_lt hc hk

theorem identifier : Consumes P TokenParser.identifier := by
  intro c hc _ a c' hok
  obtain ⟨hkind, -, rfl⟩ := identifier_eq_ok.mp hok
  exact size_advance_lt hc (by rw [hkind]; nofun)

/-- A token that the first of two parsers passes stays passed. -/
theorem bind (hp : Consumes P p) (hmoves : ∀ n, Forward n p) (hf : ∀ a n, Forward n (f a)) :
    Consumes P (p >>= f) := by
  intro c hc hpre b c'' hok
  obtain ⟨a, c', ha, hb⟩ := bind_eq_ok.mp hok
  have hsecond := precedes_of_ok (hf a) ((precedes_of_ok hmoves hc ha).sound hc) hb
  exact Nat.lt_of_le_of_lt hsecond.size_le (hp c hc hpre a c' ha)

theorem ite_test {t : Cursor → Bool} (hp : Consumes (fun c => P c ∧ t c = true) p)
    (hq : Consumes (fun c => P c ∧ t c = false) q) :
    Consumes P (TokenParser.test t >>= fun b => if b = true then p else q) := by
  intro c hc hpre b c' hok
  obtain ⟨_, _, ht, hok⟩ := bind_eq_ok.mp hok
  cases ht
  cases htest : t c with
  | true => exact hp c hc ⟨hpre, htest⟩ b c' (by simpa [htest] using hok)
  | false => exact hq c hc ⟨hpre, htest⟩ b c' (by simpa [htest] using hok)

/-- A repeated parser passes a token if its first turn does. -/
theorem manyWhile {t : Cursor → Bool} (hmoves : ∀ n, Forward n p) (ht : ∀ c, P c → t c = true)
    (hp : Consumes P p) : Consumes P (TokenParser.manyWhile t p) := by
  intro c hc hpre as c' hok
  rw [TokenParser.manyWhile, if_pos (ht c hpre)] at hok
  cases hturn : p c with
  | error e c₁ =>
    rw [hturn] at hok
    cases hok
  | ok a c₁ =>
    rw [hturn] at hok
    have hless := hp c hc hpre a c₁ hturn
    simp only [if_pos hless] at hok
    split at hok
    · cases hok
    · next as' c₂ hothers =>
      cases hok
      have hc₁ : c₁.Sound := (precedes_of_ok hmoves hc hturn).sound hc
      exact Nat.lt_of_le_of_lt (precedes_of_ok (fun n => (hmoves n).manyWhile) hc₁ hothers).size_le hless

end Consumes

namespace Strict

variable {n : Nat} {α β : Type} {p p' : TokenParser α} {f f' : α → TokenParser β}

theorem fewer (h : Strict (n + 1) p p') : Alike n p p' := h.alike.mono n.le_succ

theorem expect {k : TokenKind} (hk : k ≠ .eof) : Strict n (TokenParser.expect k) (TokenParser.expect k) :=
  ⟨.expect k, .expect hk⟩

theorem identifier : Strict n TokenParser.identifier TokenParser.identifier := ⟨.identifier, .identifier⟩

/-- Behind a token, parsers need to be alike for one token less. -/
theorem bind (hp : Strict (n + 1) p p') (hf : ∀ a, Alike n (f a) (f' a)) : Strict (n + 1) (p >>= f) (p' >>= f') where
  alike := hp.alike.bind_of (fun c hc hless a c' hok => by have := hp.consumes c hc hless a c' hok; omega) hf
  consumes := fun c hc hless b c'' hok => by
    obtain ⟨a, c', ha, hb⟩ := bind_eq_ok.mp hok
    have hfirst := hp.consumes c hc hless a c' ha
    have hmoves := (hp.alike c hc hless).2
    rw [ha] at hmoves
    have hmoves' := (hf a c' (hmoves.sound hc) (by omega)).2
    rw [hb] at hmoves'
    exact Nat.lt_of_le_of_lt hmoves'.size_le hfirst

/-- The second of two parsers passes a token wherever the first one stops. -/
theorem behind (hp : Alike n p p') (hf : ∀ a, Strict n (f a) (f' a)) : Strict n (p >>= f) (p' >>= f') where
  alike := hp.bind fun a => (hf a).alike
  consumes := fun c hc hless b c'' hok => by
    obtain ⟨a, c', ha, hb⟩ := bind_eq_ok.mp hok
    have hmoves := (hp c hc hless).2
    rw [ha] at hmoves
    exact Nat.lt_of_lt_of_le ((hf a).consumes c' (hmoves.sound hc) (Nat.lt_of_le_of_lt hmoves.size_le hless) b c'' hb)
      hmoves.size_le

end Strict

/-- A parser that is strict everywhere consumes a token everywhere. -/
theorem Consumes.of_strict {P : Cursor → Prop} {α : Type} {p : TokenParser α} (h : ∀ n, Strict (n + 1) p p) :
    Consumes P p :=
  fun c hc _ => (h c.size).consumes c hc (Nat.lt_succ_self _)

/-! ## Groups -/

/-- A group is passed from its opening bracket on, be it closed or not. -/
theorem precedes_skipGroup (c : Cursor) : c.advance.Precedes (stop (skipGroup c)) := by
  have hclose : ∀ due c, Cursor.Precedes c (stop (closeGroups due c)) := fun due c => by
    simp only [closeGroups]
    cases (groupReach due c.rest).ending <;> exact .skip _
  cases hclosing : c.peek.kind.closing? with
  | none =>
    have hskip : skipGroup c = .error (notOpening c.peek) c.advance := by
      simp only [skipGroup, bind, EStateM.bind, next, hclosing]
      rfl
    rw [hskip]
    exact .refl
  | some closing =>
    have hskip : skipGroup c = closeGroups [closing] c.advance := by
      simp only [skipGroup, bind, EStateM.bind, next, hclosing]
    rw [hskip]
    exact hclose [closing] c.advance

theorem precedes_skipOne (c : Cursor) : c.advance.Precedes (stop (skipOne c)) := by
  unfold skipOne
  split
  · exact precedes_skipGroup c
  · exact .refl

theorem precedes_of_skipOne_eq {c : Cursor} {r : EStateM.Result ParseError Cursor Unit} (h : skipOne c = r) :
    c.Precedes (stop r) :=
  h ▸ Precedes.advance.trans (precedes_skipOne c)

theorem forward_skipGroup (n : Nat) : Forward n skipGroup :=
  .of_precedes fun c => Precedes.advance.trans (precedes_skipGroup c)

theorem forward_skipOne (n : Nat) : Forward n skipOne := .of_precedes fun _ => precedes_of_skipOne_eq rfl

/-- One step passes a token before the end of the file, also where a group does not close. -/
theorem size_stop_skipOne_lt {c : Cursor} (hc : c.Sound) (hend : c.kind ≠ .eof) :
    (stop (skipOne c)).size < c.size :=
  Nat.lt_of_le_of_lt (precedes_skipOne c).size_le (size_advance_lt hc hend)

/-- What is no opening bracket, the end of the file for one, begins no group. -/
theorem strict_skipGroup (n : Nat) : Strict n skipGroup skipGroup := by
  refine ⟨forward_skipGroup n, fun c hc _ a c' hok => ?_⟩
  have hmoves := precedes_skipGroup c
  rw [hok] at hmoves
  refine Nat.lt_of_le_of_lt hmoves.size_le (size_advance_lt hc fun hkind => ?_)
  obtain ⟨opening, c₁, hnext, hok⟩ := bind_eq_ok.mp hok
  cases hnext
  rw [show c.peek.kind = .eof from hkind] at hok
  cases hok

theorem forward_skipUntil (n : Nat) (ends : Cursor → Bool) : Forward n (skipUntil ends) := by
  intro c hc hless
  have hmoves := ((forward_skipOne n).manyWhile (t := fun c => !c.isAtEnd && !ends c) c hc hless).2
  refine ⟨rfl, ?_⟩
  unfold skipUntil
  split <;> next h => rw [h] at hmoves; exact hmoves

theorem forward_closeAngles (n : Nat) (opening : Span) (depth : Nat) : Forward n (closeAngles opening depth) := by
  refine .of_precedes fun c => ?_
  fun_induction closeAngles opening depth c with
  | case1 | case2 => exact .refl
  | case3 depth c hdepth depth' hnext e c' hstep => exact precedes_of_skipOne_eq hstep
  | case4 depth c hdepth depth' hnext _ c' hstep hless ih => exact (precedes_of_skipOne_eq hstep).trans ih
  | case5 depth c hdepth depth' hnext _ c' hstep hless => exact precedes_of_skipOne_eq hstep

theorem forward_skipAngles (n : Nat) : Forward n skipAngles := by
  unfold skipAngles
  exact .bind (.expect _) fun opening => forward_closeAngles n _ _

end TokenParser

end ServiceCatalog
