import ServiceCatalog.Parse.Buffered
import ServiceCatalog.Proofs.Parse.Forward

/-!
# Token parsers over a buffer

A cursor stands in the buffer of a parser if the buffer is what has been passed, with the tokens to come and the end
of the file behind it.  Its place is then a position, and everything that can be seen at the position can be seen at the
cursor.  So a parser over the buffer can be compared with a token parser, and they answer the same if they are written
alike and their parts answer the same.

The comparison says at once that the parser only moves on (`MirrorsAt`).  It has to, because a text is told by two
positions and by two cursors only if one of them is not in front of the other.  Nothing is said about a position that a
parser leaves and comes back to: where it stops is all that counts.  Where something is tried and not found, not even
that does, since the position is set back then (`SeeksAt`, `TriesAt`).
-/

namespace ServiceCatalog

/-! ## Cursors in a buffer -/

namespace BufferedParser

open TokenParser (stop bind_eq_match Alike)

/-- Whether a cursor stands in the buffer of a parser. -/
structure Holds (b : BufferedParser) (c : Cursor) : Prop where
  sound : c.Sound
  split : ∃ passed, b.buffer = passed ++ (c.rest ++ [c.eof]) ∧ c.previous = passed.getLast?

/-- The parser at the place of a cursor. -/
def goTo (b : BufferedParser) (c : Cursor) : BufferedParser := b.moveTo (b.buffer.length - (c.size + 1))

/-- What a parser over the buffer answers where a token parser gives an answer. -/
def lift {α : Type} (b : BufferedParser) :
    EStateM.Result ParseError Cursor α → EStateM.Result ParseError BufferedParser α
  | .ok a c => .ok a (b.goTo c)
  | .error e c => .error e (b.goTo c)

variable {b : BufferedParser} {c c' : Cursor}

/-- The position of a cursor is the number of tokens in front of it. -/
theorem goTo_eq {passed : List Token} (h : b.buffer = passed ++ (c.rest ++ [c.eof])) :
    b.goTo c = b.moveTo passed.length := by
  have hlength : b.buffer.length - (c.size + 1) = passed.length := by
    rw [h, Cursor.size, List.length_append, List.length_append, List.length_singleton]
    omega
  rw [goTo, hlength]

namespace Holds

theorem skip (h : b.Holds c) (n : Nat) : b.Holds (c.skip n) := by
  obtain ⟨hsound, passed, hbuffer, hprevious⟩ := h
  refine ⟨(Cursor.Precedes.skip n).sound hsound, passed ++ c.rest.take n, ?_, ?_⟩
  · rw [hbuffer, Cursor.skip, List.append_assoc, ← List.append_assoc (c.rest.take n), List.take_append_drop]
  · rw [Cursor.skip, List.getLast?_append, hprevious]

theorem of_precedes (h : b.Holds c) (hmoves : c.Precedes c') : b.Holds c' := by
  obtain ⟨n, rfl⟩ := hmoves
  exact h.skip n

theorem advance (h : b.Holds c) : b.Holds c.advance := h.of_precedes .advance

theorem peekNth (h : b.Holds c) (n : Nat) : (b.goTo c).peekNth n = c.peekNth n := by
  obtain ⟨-, passed, hbuffer, -⟩ := h
  have hindex : min (passed.length + n) (b.buffer.length - 1) = passed.length + min n c.rest.length := by
    rw [hbuffer, List.length_append, List.length_append, List.length_singleton]
    omega
  rw [goTo_eq hbuffer, BufferedParser.peekNth, Cursor.peekNth, List.getD_eq_getElem?_getD, List.getD_eq_getElem?_getD]
  show (b.buffer[min (passed.length + n) (b.buffer.length - 1)]?).getD _ = _
  rw [hindex, hbuffer, List.getElem?_append_right (Nat.le_add_right ..), Nat.add_sub_cancel_left]
  by_cases hn : n < c.rest.length
  · rw [Nat.min_eq_left (Nat.le_of_lt hn), List.getElem?_append_left hn, List.getElem?_eq_getElem hn]
    rfl
  · have hpast : c.rest.length ≤ n := Nat.le_of_not_lt hn
    rw [Nat.min_eq_right hpast, List.getElem?_append_right (Nat.le_refl _), List.getElem?_eq_none hpast, Nat.sub_self]
    rfl

theorem peek (h : b.Holds c) : (b.goTo c).peek = c.peek := h.peekNth 0

theorem kind (h : b.Holds c) : (b.goTo c).kind = c.kind := congrArg Token.kind h.peek

theorem secondKind (h : b.Holds c) : (b.goTo c).secondKind = c.secondKind := congrArg Token.kind (h.peekNth 1)

theorem isAt (h : b.Holds c) (k : TokenKind) : (b.goTo c).isAt k = c.isAt k := by
  rw [BufferedParser.isAt, h.kind, Cursor.isAt]

theorem isAtWord (h : b.Holds c) (word : String) : (b.goTo c).isAtWord word = c.isAtWord word := by
  rw [BufferedParser.isAtWord, h.isAt, h.peek, Cursor.isAtWord]

theorem remaining (h : b.Holds c) : (b.goTo c).remaining = c.size + 1 := by
  obtain ⟨-, passed, hbuffer, -⟩ := h
  rw [goTo_eq hbuffer]
  show b.buffer.length - passed.length = _
  rw [hbuffer, List.length_append, Nat.add_sub_cancel_left, List.length_append, List.length_singleton, Cursor.size]

theorem remaining_lt_iff (h : b.Holds c) (h' : b.Holds c') :
    (b.goTo c').remaining < (b.goTo c).remaining ↔ c'.size < c.size := by
  rw [h'.remaining, h.remaining, Nat.add_lt_add_iff_right]

/-- Passing a token is passing it in the buffer. -/
theorem goTo_advance (h : b.Holds c) : (b.goTo c).advance = b.goTo c.advance := by
  rw [BufferedParser.advance, h.isAt]
  split
  · next hend =>
    obtain ⟨previous, rest, eof⟩ := c
    obtain rfl : rest = [] := h.sound.rest_eq_nil (Cursor.isAt_iff.mp hend)
    rfl
  · next hend =>
    obtain ⟨t, ts, hrest, -⟩ := h.sound.exists_cons fun hkind => hend (Cursor.isAt_iff.mpr hkind)
    obtain ⟨-, passed, hbuffer, -⟩ := h
    rw [goTo_eq hbuffer, Cursor.advance, hrest]
    have hbehind : b.buffer = (passed ++ [t]) ++ (ts ++ [c.eof]) := by rw [hbuffer, hrest]; simp
    exact (goTo_eq (c := ⟨some t, ts, c.eof⟩) hbehind |>.trans (by rw [List.length_append]; rfl)).symm

theorem previous? (h : b.Holds c) : (b.goTo c).previous? = c.previous := by
  obtain ⟨-, passed, hbuffer, hprevious⟩ := h
  rw [goTo_eq hbuffer, hprevious]
  rcases List.eq_nil_or_concat passed with rfl | ⟨front, t, rfl⟩
  · rfl
  · rw [List.length_concat, List.concat_eq_append, List.getLast?_concat]
    show b.buffer[front.length]? = _
    rw [hbuffer, List.concat_eq_append, List.append_assoc, List.getElem?_append_right (Nat.le_refl _), Nat.sub_self]
    rfl

theorem spanSince (h : b.Holds c) (start : Span) : (b.goTo c).spanSince start = c.spanFrom start := by
  cases hprevious : c.previous with
  | none => simp only [BufferedParser.spanSince, Cursor.spanFrom, h.previous?, hprevious]
  | some t => simp only [BufferedParser.spanSince, Cursor.spanFrom, h.previous?, hprevious]

/-- The tokens between two cursors are those between their positions. -/
theorem textSince {start : Cursor} (h : b.Holds start) (hmoves : start.Precedes c) :
    (b.goTo c).textSince (b.goTo start).position = Token.text (start.between c) := by
  obtain ⟨-, passed, hbuffer, -⟩ := h
  have hsize : c.size ≤ start.size := hmoves.size_le
  have hlength : b.buffer.length = passed.length + (start.size + 1) := by
    rw [hbuffer, List.length_append, List.length_append, List.length_singleton, Cursor.size]
  have hposition : (b.goTo c).position = passed.length + (start.size - c.size) := by
    show b.buffer.length - (c.size + 1) = _
    omega
  have hfront : (start.rest ++ [start.eof]).take (start.size - c.size) = start.rest.take (start.size - c.size) :=
    List.take_append_of_le_length (Nat.sub_le ..)
  rw [BufferedParser.textSince, hposition, goTo_eq hbuffer, Cursor.between]
  show Token.text (List.drop passed.length (List.take _ b.buffer)) = _
  rw [hbuffer, List.take_append, Nat.add_sub_cancel_left, List.take_of_length_le (Nat.le_add_right ..),
    List.drop_append_of_le_length (Nat.le_refl _), List.drop_length, List.nil_append, hfront]

/-- Two places of a file have the same position if no token has been passed between them, and only then. -/
theorem position_eq_iff {start : Cursor} (h : b.Holds start) (hmoves : start.Precedes c) :
    (b.goTo c).position = (b.goTo start).position ↔ ¬ c.size < start.size := by
  have hstart := h.remaining
  have hc := (h.of_precedes hmoves).remaining
  have hsize := hmoves.size_le
  simp only [BufferedParser.remaining] at hstart hc
  change b.buffer.length - _ = _ at hstart
  change b.buffer.length - _ = _ at hc
  omega

end Holds

/-- A later place has a higher position. -/
theorem position_mono (hmoves : c.Precedes c') : (b.goTo c).position ≤ (b.goTo c').position := by
  have hsize := hmoves.size_le
  show b.buffer.length - _ ≤ b.buffer.length - _
  omega

/-! ## Parsers that answer the same -/

/-- Whether a parser over the buffer answers at a cursor what a token parser answers there, in the same place, and
that place is no earlier than a given one. -/
def MirrorsAt (b : BufferedParser) (start c : Cursor) {α : Type} (t' : Parsing α) (t : TokenParser α) : Prop :=
  t' (b.goTo c) = b.lift (t c) ∧ start.Precedes (stop (t c))

/-- Whether a parser over the buffer answers what a token parser answers, and only moves on. -/
def Mirrors (b : BufferedParser) {α : Type} (t' : Parsing α) (t : TokenParser α) : Prop :=
  ∀ c, b.Holds c → b.MirrorsAt c c t' t

/-- Whether a test of a parser over the buffer is a test of the cursor. -/
def Tells (b : BufferedParser) (p' : BufferedParser → Bool) (p : Cursor → Bool) : Prop :=
  ∀ c, b.Holds c → p' (b.goTo c) = p c

theorem Tells.not {p' : BufferedParser → Bool} {p : Cursor → Bool} (h : b.Tells p' p) :
    b.Tells (fun q => !p' q) (fun c => !p c) := fun c hc => congrArg (! ·) (h c hc)

theorem isAt_tells (k : TokenKind) : b.Tells (·.isAt k) (·.isAt k) := fun _ hc => hc.isAt k

namespace Holds

variable {α : Type} (h : b.Holds c)

include h

theorem nextSpan_bind (f : Span → Parsing α) : (Parsing.nextSpan >>= f) (b.goTo c) = f c.peek.span (b.goTo c) := by
  rw [bind_eq_match, Parsing.nextSpan, h.peek]

theorem peekNth_bind (f : Token → Parsing α) : (Parsing.peekNth 0 >>= f) (b.goTo c) = f c.peek (b.goTo c) := by
  rw [bind_eq_match, Parsing.peekNth, h.peekNth]
  rfl

theorem next_bind (f : Token → Parsing α) : (Parsing.next >>= f) (b.goTo c) = f c.peek (b.goTo c.advance) := by
  rw [bind_eq_match, Parsing.next, h.peek, h.goTo_advance]

theorem test_bind {p' : BufferedParser → Bool} {p : Cursor → Bool} (hp : b.Tells p' p) (f : Bool → Parsing α) :
    (Parsing.test p' >>= f) (b.goTo c) = f (p c) (b.goTo c) := by
  rw [bind_eq_match, Parsing.test, hp c h]

end Holds

section Combinators

variable {α β : Type} {start : Cursor} {t' u' : Parsing α} {t u : TokenParser α} {f' : α → Parsing β} {f : α → TokenParser β}
  {p' : BufferedParser → Bool} {p : Cursor → Bool}

namespace MirrorsAt

/-- What stands behind a parser begins where that one stopped. -/
theorem bind (h : b.MirrorsAt start c t' t)
    (hf : ∀ a c', start.Precedes c' → t c = .ok a c' → b.MirrorsAt start c' (f' a) (f a)) :
    b.MirrorsAt start c (t' >>= f') (t >>= f) := by
  obtain ⟨heq, hmoves⟩ := h
  unfold MirrorsAt
  rw [bind_eq_match, bind_eq_match, heq]
  cases hfirst : t c with
  | error e c' =>
    rw [hfirst] at hmoves
    exact ⟨rfl, hmoves⟩
  | ok a c' =>
    rw [hfirst] at hmoves
    exact hf a c' hmoves hfirst

/-- The place of the next token is that of the cursor. -/
theorem nextSpan_left {g : Span → Parsing α} (h : b.Holds c) (hg : b.MirrorsAt start c (g c.peek.span) t) :
    b.MirrorsAt start c (Parsing.nextSpan >>= g) t := ⟨(h.nextSpan_bind g).trans hg.1, hg.2⟩

/-- The position is that of the cursor. -/
theorem position_here {g : Nat → Parsing α} {h : Cursor → TokenParser α}
    (hg : b.MirrorsAt start c (g (b.goTo c).position) (h c)) :
    b.MirrorsAt start c (Parsing.position >>= g) (TokenParser.here >>= h) := hg

/-- The next token is that of the cursor. -/
theorem peekNth_here {g : Token → Parsing α} {h : Cursor → TokenParser α} (hc : b.Holds c)
    (hg : b.MirrorsAt start c (g c.peek) (h c)) :
    b.MirrorsAt start c (Parsing.peekNth 0 >>= g) (TokenParser.here >>= h) := ⟨(hc.peekNth_bind g).trans hg.1, hg.2⟩

theorem textSince {s : Cursor} (h : b.Holds s) (hmoves : s.Precedes c) (hstart : start.Precedes c) :
    b.MirrorsAt start c (Parsing.textSince (b.goTo s).position) (TokenParser.textSince s) := by
  refine ⟨?_, hstart⟩
  rw [Parsing.textSince, h.textSince hmoves]
  rfl

/-- A token that is known to be an identifier need only be passed. -/
theorem next_identifier {g : Token → Parsing α} {h : Ident → TokenParser α} (hc : b.Holds c) (hat : c.isAt .identifier = true)
    (hg : b.MirrorsAt start c.advance (g c.peek) (h ⟨c.peek.lexeme, c.peek.span⟩)) :
    b.MirrorsAt start c (Parsing.next >>= g) (TokenParser.identifier >>= h) := by
  have hident : (TokenParser.identifier >>= h) c = h ⟨c.peek.lexeme, c.peek.span⟩ c.advance := by
    rw [bind_eq_match, TokenParser.identifier, if_pos hat]
  unfold MirrorsAt
  rw [hc.next_bind, hident]
  exact hg

/-- Going back to a cursor is going back to its position. -/
theorem moveTo_goBack {s : Cursor} (hstart : start.Precedes s) :
    b.MirrorsAt start c (Parsing.moveTo (b.goTo s).position) (TokenParser.goBack s) := ⟨rfl, hstart⟩

theorem ite_test (hp : b.Tells p' p) (hc : b.Holds c) (htrue : p c = true → b.MirrorsAt start c t' t)
    (hfalse : p c = false → b.MirrorsAt start c u' u) :
    b.MirrorsAt start c (Parsing.test p' >>= fun x => if x = true then t' else u')
      (TokenParser.test p >>= fun x => if x = true then t else u) := by
  unfold MirrorsAt
  rw [hc.test_bind hp, bind_eq_match, TokenParser.test]
  cases hpc : p c with
  | true => exact htrue hpc
  | false => exact hfalse hpc

end MirrorsAt

namespace Mirrors

/-- Parsers that answer the same move on from any earlier place too. -/
theorem since (h : b.Mirrors t' t) (hmoves : start.Precedes c) (hstart : b.Holds start) : b.MirrorsAt start c t' t :=
  (h c (hstart.of_precedes hmoves)).imp_right hmoves.trans

theorem bind (h : b.Mirrors t' t) (hf : ∀ a, b.Mirrors (f' a) (f a)) : b.Mirrors (t' >>= f') (t >>= f) :=
  fun c hc => (h c hc).bind fun a _ hmoves _ => (hf a).since hmoves hc

theorem pure (a : α) : b.Mirrors (Pure.pure a) (Pure.pure a) := fun _ _ => ⟨rfl, .refl⟩

theorem next : b.Mirrors Parsing.next TokenParser.next := by
  refine fun c hc => ⟨?_, .advance⟩
  rw [Parsing.next, hc.peek, hc.goTo_advance]
  rfl

theorem nextSpan : b.Mirrors Parsing.nextSpan TokenParser.nextSpan := by
  refine fun c hc => ⟨?_, .refl⟩
  rw [Parsing.nextSpan, hc.peek]
  rfl

theorem test (hp : b.Tells p' p) : b.Mirrors (Parsing.test p') (TokenParser.test p) := by
  refine fun c hc => ⟨?_, .refl⟩
  rw [Parsing.test, hp c hc]
  rfl

theorem spanSince (s : Span) : b.Mirrors (Parsing.spanSince s) (TokenParser.spanFrom s) := by
  refine fun c hc => ⟨?_, .refl⟩
  rw [Parsing.spanSince, hc.spanSince]
  rfl

theorem failAtNext (e : Token → ParseError) : b.Mirrors (Parsing.failAtNext e : Parsing α) (TokenParser.failAtNext e) := by
  refine fun c hc => ⟨?_, .refl⟩
  rw [Parsing.failAtNext, hc.peek]
  rfl

theorem eat (k : TokenKind) : b.Mirrors (Parsing.eat k) (TokenParser.eat? k) := by
  refine fun c hc => ⟨?_, (Alike.eat? k c hc.sound (Nat.lt_succ_self _)).2⟩
  rw [Parsing.eat, TokenParser.eat?, hc.isAt, hc.peek, hc.goTo_advance]
  split <;> rfl

theorem expect (k : TokenKind) : b.Mirrors (Parsing.expect k) (TokenParser.expect k) := by
  refine fun c hc => ⟨?_, (Alike.expect k c hc.sound (Nat.lt_succ_self _)).2⟩
  rw [Parsing.expect, TokenParser.expect, hc.isAt, hc.peek, hc.goTo_advance]
  split <;> rfl

theorem ite {x : Bool} (h : b.Mirrors t' t) (hu : b.Mirrors u' u) :
    b.Mirrors (if x = true then t' else u') (if x = true then t else u) := by
  cases x
  · exact hu
  · exact h

theorem ite_test (hp : b.Tells p' p) (h : b.Mirrors t' t) (hu : b.Mirrors u' u) :
    b.Mirrors (Parsing.test p' >>= fun x => if x = true then t' else u')
      (TokenParser.test p >>= fun x => if x = true then t else u) :=
  bind (test hp) fun _ => ite h hu

/-- Passing a token that may be missing, where all that counts is whether it is there. -/
theorem eat_bind {k : TokenKind} {g' : Option Token → Parsing β} {g : Bool → TokenParser β}
    (hsome : ∀ t, b.Mirrors (g' (some t)) (g true)) (hnone : b.Mirrors (g' none) (g false)) :
    b.Mirrors (Parsing.eat k >>= g') (TokenParser.eat k >>= g) := by
  intro c hc
  have heat : (TokenParser.eat k >>= g) c = (TokenParser.eat? k >>= fun found => g found.isSome) c := by
    rw [bind_eq_match, bind_eq_match, TokenParser.eat, TokenParser.eat?]
    cases c.isAt k <;> rfl
  have hfound : b.Mirrors (Parsing.eat k >>= g') (TokenParser.eat? k >>= fun found => g found.isSome) := by
    refine bind (eat k) fun found => ?_
    cases found with
    | none => exact hnone
    | some t => exact hsome t
  unfold MirrorsAt
  rw [heat]
  exact hfound c hc

theorem eatComma : b.Mirrors Parsing.eatComma (TokenParser.eat .comma) := by
  have h : b.Mirrors Parsing.eatComma (TokenParser.eat .comma >>= Pure.pure) :=
    eat_bind (fun _ => pure true) (pure false)
  rwa [bind_pure] at h

theorem identifier : b.Mirrors Parsing.identifier TokenParser.identifier := by
  intro c hc
  refine ⟨?_, (Alike.identifier c hc.sound (Nat.lt_succ_self _)).2⟩
  rw [Parsing.identifier, TokenParser.identifier, bind_eq_match, Parsing.eat, hc.isAt, hc.peek, hc.goTo_advance]
  cases c.isAt .identifier with
  | true => rfl
  | false =>
    show Parsing.failAtNext _ (b.goTo c) = _
    rw [Parsing.failAtNext, hc.peek]
    rfl

end Mirrors

end Combinators

/-! ## What is tried and given up -/

section Tried

variable {α β : Type} {start : Cursor}

/-- Whether two parsers find the same from a cursor on.  Where they find nothing, they may stop anywhere. -/
def SeeksAt (b : BufferedParser) (start c : Cursor) (t' : Parsing (Option α)) (t : TokenParser (Option α)) : Prop :=
  match t c with
  | .ok (some a) c' => t' (b.goTo c) = .ok (some a) (b.goTo c') ∧ start.Precedes c'
  | .ok none _ => ∃ i, t' (b.goTo c) = .ok none (b.moveTo i)
  | .error e c' => t' (b.goTo c) = .error e (b.goTo c') ∧ start.Precedes c'

namespace SeeksAt

theorem of_mirrors {t' : Parsing (Option α)} {t : TokenParser (Option α)} (h : b.MirrorsAt start c t' t) :
    b.SeeksAt start c t' t := by
  obtain ⟨heq, hmoves⟩ := h
  unfold SeeksAt
  cases hfound : t c with
  | error e c' =>
    rw [hfound] at heq hmoves
    exact ⟨heq, hmoves⟩
  | ok found c' =>
    rw [hfound] at heq hmoves
    cases found with
    | none => exact ⟨_, heq⟩
    | some a => exact ⟨heq, hmoves⟩

/-- A search that begins behind the next token. -/
theorem next_bind {f' : Token → Parsing (Option α)} {f : Token → TokenParser (Option α)} (hc : b.Holds c)
    (h : b.SeeksAt start c.advance (f' c.peek) (f c.peek)) :
    b.SeeksAt start c (Parsing.next >>= f') (TokenParser.next >>= f) := by
  unfold SeeksAt
  rw [hc.next_bind]
  exact h

/-- A search that is over where something in it fails. -/
theorem attempt_bind {t' : Parsing α} {t : TokenParser α} {f' : Option α → Parsing (Option β)}
    {f : Option α → TokenParser (Option β)} (h : b.MirrorsAt start c t' t)
    (hsome : ∀ a c', start.Precedes c' → b.SeeksAt start c' (f' (some a)) (f (some a))) (hnone' : f' none = pure none)
    (hnone : f none = pure none) : b.SeeksAt start c (Parsing.attempt t' >>= f') (TokenParser.attempt t >>= f) := by
  obtain ⟨heq, hmoves⟩ := h
  unfold SeeksAt
  rw [bind_eq_match, bind_eq_match, Parsing.attempt, TokenParser.attempt, heq]
  cases hfound : t c with
  | error e c' =>
    dsimp only [lift]
    rw [hnone', hnone]
    exact ⟨_, rfl⟩
  | ok a c' =>
    rw [hfound] at hmoves
    exact hsome a c' hmoves

theorem ite_test {p' : BufferedParser → Bool} {p : Cursor → Bool} {t' u' : Parsing (Option α)}
    {t u : TokenParser (Option α)} (hp : b.Tells p' p) (hc : b.Holds c) (htrue : p c = true → b.SeeksAt start c t' t)
    (hfalse : p c = false → b.SeeksAt start c u' u) :
    b.SeeksAt start c (Parsing.test p' >>= fun x => if x = true then t' else u')
      (TokenParser.test p >>= fun x => if x = true then t else u) := by
  unfold SeeksAt
  rw [hc.test_bind hp, bind_eq_match, TokenParser.test]
  cases hpc : p c with
  | true => exact htrue hpc
  | false => exact hfalse hpc

/-- What goes back to where the search began does not depend on where it stopped. -/
theorem bind {t' : Parsing (Option α)} {t : TokenParser (Option α)} {f' : Option α → Parsing β}
    {f : Option α → TokenParser β} (h : b.SeeksAt start c t' t)
    (hsome : ∀ a c', start.Precedes c' → b.MirrorsAt start c' (f' (some a)) (f (some a)))
    (hnone : ∀ i c', f' none (b.moveTo i) = b.lift (f none c') ∧ start.Precedes (stop (f none c'))) :
    b.MirrorsAt start c (t' >>= f') (t >>= f) := by
  unfold SeeksAt at h
  unfold MirrorsAt
  rw [bind_eq_match, bind_eq_match]
  cases hfound : t c with
  | error e c' =>
    rw [hfound] at h
    rw [h.1]
    exact ⟨rfl, h.2⟩
  | ok found c' =>
    rw [hfound] at h
    cases found with
    | none =>
      obtain ⟨i, heq⟩ := h
      rw [heq]
      exact hnone i c'
    | some a =>
      rw [h.1]
      exact hsome a c' h.2

end SeeksAt

/-- Whether a parser over the buffer finds what a token parser answers, and nothing where that one fails. -/
def TriesAt (b : BufferedParser) (start c : Cursor) (t' : Parsing (Option α)) (t : TokenParser α) : Prop :=
  match t c with
  | .ok a c' => t' (b.goTo c) = .ok (some a) (b.goTo c') ∧ start.Precedes c'
  | .error _ _ => ∃ i, t' (b.goTo c) = .ok none (b.moveTo i)

namespace TriesAt

variable {t' : Parsing (Option α)} {t : TokenParser α}

/-- A token parser that is tried starts over where it fails. -/
theorem seeks (h : b.TriesAt start c t' t) : b.SeeksAt start c t' (TokenParser.attempt t) := by
  unfold TriesAt at h
  unfold SeeksAt
  rw [TokenParser.attempt]
  cases hfound : t c with
  | error e c' => rwa [hfound] at h
  | ok a c' => rwa [hfound] at h

theorem since (h : b.TriesAt c c t' t) (hmoves : start.Precedes c) : b.TriesAt start c t' t := by
  unfold TriesAt at h
  unfold TriesAt
  cases hfound : t c with
  | error e c' => rwa [hfound] at h
  | ok a c' =>
    rw [hfound] at h
    exact ⟨h.1, hmoves.trans h.2⟩

theorem bind {f' : Option α → Parsing (Option β)} {f : α → TokenParser β} (h : b.TriesAt start c t' t)
    (hsome : ∀ a c', start.Precedes c' → b.TriesAt start c' (f' (some a)) (f a))
    (hnone : ∀ p, f' none p = .ok none p) : b.TriesAt start c (t' >>= f') (t >>= f) := by
  unfold TriesAt at h
  unfold TriesAt
  rw [bind_eq_match, bind_eq_match]
  cases hfound : t c with
  | error e c' =>
    rw [hfound] at h
    obtain ⟨i, heq⟩ := h
    rw [heq]
    exact ⟨i, hnone _⟩
  | ok a c' =>
    rw [hfound] at h
    rw [h.1]
    exact hsome a c' h.2

/-- Behind a parser that answers. -/
theorem behind {u' : Parsing β} {u : TokenParser β} {f' : β → Parsing (Option α)} {f : β → TokenParser α}
    (h : b.MirrorsAt start c u' u) (hok : ∃ a c', u c = .ok a c')
    (hf : ∀ a c', start.Precedes c' → b.TriesAt start c' (f' a) (f a)) :
    b.TriesAt start c (u' >>= f') (u >>= f) := by
  obtain ⟨a, c', hanswer⟩ := hok
  obtain ⟨heq, hmoves⟩ := h
  rw [hanswer] at heq hmoves
  have hrest := hf a c' hmoves
  unfold TriesAt at hrest
  unfold TriesAt
  rw [bind_eq_match, bind_eq_match, heq, hanswer]
  exact hrest

theorem attempt {u' : Parsing α} (h : b.MirrorsAt start c u' t) : b.TriesAt start c (Parsing.attempt u') t := by
  obtain ⟨heq, hmoves⟩ := h
  unfold TriesAt
  rw [Parsing.attempt, heq]
  cases hfound : t c with
  | error e c' => exact ⟨_, rfl⟩
  | ok a c' =>
    rw [hfound] at hmoves
    exact ⟨rfl, hmoves⟩

theorem pure (a : α) (hmoves : start.Precedes c) : b.TriesAt start c (Pure.pure (some a)) (Pure.pure a) :=
  ⟨rfl, hmoves⟩

/-- Passing a token that may be missing, against failing without it. -/
theorem eat (h : b.Holds c) (hmoves : start.Precedes c) (k : TokenKind) :
    b.TriesAt start c (Parsing.eat k) (TokenParser.expect k) := by
  unfold TriesAt
  rw [Parsing.eat, TokenParser.expect, h.isAt, h.peek, h.goTo_advance]
  cases c.isAt k with
  | true => exact ⟨rfl, hmoves.trans .advance⟩
  | false => exact ⟨_, rfl⟩

theorem identifier_bind {f' : Option Token → Parsing (Option α)} {f : Ident → TokenParser α} (h : b.Holds c)
    (hmoves : start.Precedes c)
    (hsome : ∀ t c', start.Precedes c' → b.TriesAt start c' (f' (some t)) (f ⟨t.lexeme, t.span⟩))
    (hnone : ∀ p, f' none p = .ok none p) :
    b.TriesAt start c (Parsing.eat .identifier >>= f') (TokenParser.identifier >>= f) := by
  have hsecond := hsome c.peek c.advance (hmoves.trans .advance)
  unfold TriesAt at hsecond
  unfold TriesAt
  rw [bind_eq_match, bind_eq_match, Parsing.eat, TokenParser.identifier, h.isAt, h.peek, h.goTo_advance]
  cases c.isAt .identifier with
  | true => exact hsecond
  | false => exact ⟨_, hnone _⟩

end TriesAt

end Tried

end BufferedParser

end ServiceCatalog
