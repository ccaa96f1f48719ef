import Mathlib.Data.List.Forall2
import ServiceCatalog.Parse.Type
import ServiceCatalog.Proofs.Parse.Passing
import ServiceCatalog.Proofs.Token.Printed

/-!
# What a parser reads

`Cursor.At` says which tokens are to come at a cursor, as they would be written.  `TokenParser.Reads` is the
specification of a parser on them: where these tokens are to come it succeeds, those are to come where it stops,
and what it answers has a property.  Each combinator reads what its parts read one after the other, so a parser
that follows the grammar is run along its own text.  What a test of the cursor answers is computed from the kinds
of the tokens to come.

Nothing is said about places, nor about line feeds except that none stands before a parenthesis that opens.
-/

namespace ServiceCatalog

/-- The kind of the first of the tokens to come; the end of the file, if there is none. -/
def headKind : List Spelling → TokenKind
  | [] => .eof
  | s :: _ => s.kind

@[simp] theorem headKind_nil : headKind [] = .eof := rfl

@[simp] theorem headKind_cons (s : Spelling) (ss : List Spelling) : headKind (s :: ss) = s.kind := rfl

/-! ## Tokens to come -/

/-- Whether a token stands for a spelling.  A parenthesis that opens is on the line of what it belongs to. -/
structure Spelling.Stands (s : Spelling) (t : Token) : Prop where
  kind : t.kind = s.kind
  lexeme : t.lexeme = s.text
  sameLine : t.kind = .leftParen → t.newlineBefore = false

namespace Cursor

/-- Whether certain tokens are to come, and no others. -/
structure At (c : Cursor) (ss : List Spelling) : Prop where
  rest : List.Forall₂ Spelling.Stands ss c.rest
  eof : c.eof.kind = .eof

namespace At

variable {c : Cursor} {s : Spelling} {ss : List Spelling}

theorem kind_peekNth (h : c.At ss) (n : Nat) : (c.peekNth n).kind = headKind (ss.drop n) := by
  obtain ⟨previous, rest, eof⟩ := c
  obtain ⟨hrest, heof⟩ := h
  simp only [peekNth] at *
  induction hrest generalizing n with
  | nil => rw [List.drop_nil]; exact heof
  | cons hfirst _ ih => cases n with
    | zero => exact hfirst.kind
    | succ n => exact ih n

theorem kind (h : c.At ss) : c.kind = headKind ss := h.kind_peekNth 0

theorem secondKind (h : c.At ss) : c.secondKind = headKind ss.tail := by
  rw [Cursor.secondKind, h.kind_peekNth, List.drop_one]

/-- The second token of a construct that begins with one and goes on. -/
theorem secondKind_append {xs more : List Spelling} (h : c.At (xs ++ ss)) (hxs : xs = s :: more) :
    c.secondKind = headKind (more ++ ss) := by
  rw [h.secondKind, hxs]
  rfl

theorem lexeme (h : c.At (s :: ss)) : c.peek.lexeme = s.text := by
  obtain ⟨previous, rest, eof⟩ := c
  obtain ⟨hrest, heof⟩ := h
  cases hrest with
  | cons hfirst _ => exact hfirst.lexeme

theorem sameLine (h : c.At ss) (hparen : headKind ss = .leftParen) : c.peek.newlineBefore = false := by
  obtain ⟨previous, rest, eof⟩ := c
  obtain ⟨hrest, heof⟩ := h
  cases hrest with
  | nil => contradiction
  | cons hfirst _ => exact hfirst.sameLine (hfirst.kind.trans hparen)

theorem advance (h : c.At (s :: ss)) : c.advance.At ss := by
  obtain ⟨previous, rest, eof⟩ := c
  obtain ⟨hrest, heof⟩ := h
  cases hrest with
  | cons _ hothers => exact ⟨hothers, heof⟩

theorem size (h : c.At ss) : c.size = ss.length := h.rest.length_eq.symm

theorem isAt_of_eq {k : TokenKind} (h : c.At ss) (hk : headKind ss = k) : c.isAt k = true :=
  isAt_iff.mpr (h.kind.trans hk)

theorem isAt_of_ne {k : TokenKind} (h : c.At ss) (hk : headKind ss ≠ k) : c.isAt k = false := by
  rw [Cursor.isAt, h.kind, beq_eq_false_iff_ne]
  exact hk

/-- What is no identifier is not a word that is looked for. -/
theorem isAtWord_of_ne (h : c.At ss) (hkind : headKind ss ≠ .identifier) (word : String) : c.isAtWord word = false := by
  rw [Cursor.isAtWord, h.isAt_of_ne hkind, Bool.false_and]

end At

end Cursor

/-! ## Reading -/

/-- Whether a parser reads the tokens to come up to certain others, and what it then answers.  Which tokens are to
come is told by the state of the parser. -/
def ReadsFrom {ε σ α : Type} (At : σ → List Spelling → Prop) (p : EStateM ε σ α) (before after : List Spelling)
    (P : α → Prop) : Prop :=
  ∀ s, At s before → ∃ a s', p s = .ok a s' ∧ At s' after ∧ P a

namespace ReadsFrom

variable {ε σ α β : Type} {At : σ → List Spelling → Prop} {p : EStateM ε σ α} {f : α → EStateM ε σ β}
  {xs ys zs : List Spelling} {P Q : α → Prop} {R : β → Prop}

theorem mono (hp : ReadsFrom At p xs ys P) (h : ∀ a, P a → Q a) : ReadsFrom At p xs ys Q := by
  intro s hs
  obtain ⟨a, s', hok, hs', ha⟩ := hp s hs
  exact ⟨a, s', hok, hs', h a ha⟩

theorem bind (hp : ReadsFrom At p xs ys P) (hf : ∀ a, P a → ReadsFrom At (f a) ys zs R) :
    ReadsFrom At (p >>= f) xs zs R := by
  intro s hs
  obtain ⟨a, s', hok, hs', ha⟩ := hp s hs
  obtain ⟨b, s'', hok', hs'', hb⟩ := hf a ha s' hs'
  exact ⟨b, s'', TokenParser.bind_eq_ok.mpr ⟨a, s', hok, hok'⟩, hs'', hb⟩

theorem pure {a : α} (h : P a) : ReadsFrom At (Pure.pure a : EStateM ε σ α) xs xs P :=
  fun s hs => ⟨a, s, rfl, hs, h⟩

end ReadsFrom

/-- Whether a parser reads the tokens to come at a cursor. -/
abbrev TokenParser.Reads {α : Type} (p : TokenParser α) (before after : List Spelling) (P : α → Prop) : Prop :=
  ReadsFrom Cursor.At p before after P

namespace ReadsFrom

open TokenParser

variable {α β : Type} {p q : TokenParser α} {f : α → TokenParser β} {xs ys zs : List Spelling} {s : Spelling}
  {P Q : α → Prop} {R : β → Prop}

theorem here : Reads TokenParser.here xs xs (·.At xs) := fun c hc => ⟨c, c, rfl, hc, hc⟩

theorem nextSpan : Reads TokenParser.nextSpan xs xs fun _ => True := fun c hc => ⟨_, c, rfl, hc, trivial⟩

theorem spanFrom (start : Span) : Reads (TokenParser.spanFrom start) xs xs fun _ => True :=
  fun c hc => ⟨_, c, rfl, hc, trivial⟩

theorem textSince (start : Cursor) : Reads (TokenParser.textSince start) xs xs fun _ => True :=
  fun c hc => ⟨_, c, rfl, hc, trivial⟩

/-- The text of the tokens since a cursor is that of the spellings that were to come there. -/
theorem textSince_of {ss : List Spelling} {text : String} {last : Option TokenKind} {start : Cursor}
    (hprints : Prints none ss text last) (hstart : start.At (ss ++ xs)) :
    Reads (TokenParser.textSince start) xs xs (· = text) := by
  intro c hc
  refine ⟨_, c, rfl, hc, ?_⟩
  have hlength : start.size - c.size = ss.length := by
    rw [hstart.size, hc.size, List.length_append]
    omega
  have htokens : List.Forall₂ Spelling.Stands ss (start.between c) := by
    rw [Cursor.between, hlength]
    have htake := List.forall₂_take ss.length hstart.rest
    rwa [List.take_left] at htake
  exact hprints.textAfter_eq (htokens.imp fun _ _ h => ⟨h.kind, h.lexeme⟩)

/-- Where a test of the cursor holds, the first branch is taken. -/
theorem test_true {t : Cursor → Bool} {p q : TokenParser β} (ht : ∀ c : Cursor, c.At xs → t c = true)
    (hp : Reads p xs ys R) : Reads (TokenParser.test t >>= fun b => if b = true then p else q) xs ys R := by
  intro c hc
  obtain ⟨a, c', hok, hc', ha⟩ := hp c hc
  exact ⟨a, c', bind_eq_ok.mpr ⟨true, c, by rw [TokenParser.test, ht c hc], hok⟩, hc', ha⟩

/-- Where a test of the cursor fails, the second one is. -/
theorem test_false {t : Cursor → Bool} {p q : TokenParser β} (ht : ∀ c : Cursor, c.At xs → t c = false)
    (hq : Reads q xs ys R) : Reads (TokenParser.test t >>= fun b => if b = true then p else q) xs ys R := by
  intro c hc
  obtain ⟨a, c', hok, hc', ha⟩ := hq c hc
  exact ⟨a, c', bind_eq_ok.mpr ⟨false, c, by rw [TokenParser.test, ht c hc], hok⟩, hc', ha⟩

theorem next : Reads TokenParser.next (s :: xs) xs fun t => t.kind = s.kind ∧ t.lexeme = s.text :=
  fun _ hc => ⟨_, _, rfl, hc.advance, hc.kind, hc.lexeme⟩

theorem expect {k : TokenKind} (h : s.kind = k) : Reads (TokenParser.expect k) (s :: xs) xs fun _ => True :=
  fun c hc => ⟨c.peek, c.advance, expect_eq_ok.mpr ⟨hc.kind.trans h, rfl, rfl⟩, hc.advance, trivial⟩

theorem eat {k : TokenKind} (h : s.kind = k) : Reads (TokenParser.eat k) (s :: xs) xs (· = true) :=
  fun c hc => ⟨true, c.advance, by rw [TokenParser.eat, if_pos (hc.isAt_of_eq h)], hc.advance, rfl⟩

theorem eat_of_ne {k : TokenKind} (h : headKind xs ≠ k) : Reads (TokenParser.eat k) xs xs (· = false) :=
  fun c hc => ⟨false, c, by rw [TokenParser.eat, hc.isAt_of_ne h, if_neg Bool.false_ne_true], hc, rfl⟩

theorem eat? {k : TokenKind} (h : s.kind = k) : Reads (TokenParser.eat? k) (s :: xs) xs fun t => ∃ t', t = some t' :=
  fun c hc => ⟨_, c.advance, by rw [TokenParser.eat?, if_pos (hc.isAt_of_eq h)], hc.advance, _, rfl⟩

theorem eat?_of_ne {k : TokenKind} (h : headKind xs ≠ k) : Reads (TokenParser.eat? k) xs xs (· = none) :=
  fun c hc => ⟨none, c, by rw [TokenParser.eat?, hc.isAt_of_ne h, if_neg Bool.false_ne_true], hc, rfl⟩

theorem eatWord_of_ne {word : String} (h : headKind xs ≠ .identifier) :
    Reads (TokenParser.eatWord word) xs xs (· = false) :=
  fun c hc => ⟨false, c, by rw [TokenParser.eatWord, hc.isAtWord_of_ne h, if_neg Bool.false_ne_true], hc, rfl⟩

theorem identifier (h : s.kind = .identifier) : Reads TokenParser.identifier (s :: xs) xs (·.name = s.text) :=
  fun c hc => ⟨_, c.advance, identifier_eq_ok.mpr ⟨hc.kind.trans h, rfl, rfl⟩, hc.advance, hc.lexeme⟩

/-- A parser that is tried succeeds where the parser does. -/
theorem attempt (hp : Reads p xs ys P) : Reads (TokenParser.attempt p) xs ys fun o => ∃ a, o = some a ∧ P a := by
  intro c hc
  obtain ⟨a, c', hok, hc', ha⟩ := hp c hc
  exact ⟨some a, c', by rw [TokenParser.attempt, hok], hc', a, rfl, ha⟩

/-- A parser that may only be called with fewer tokens to come reads what it does there. -/
theorem below {start : Cursor} (hless : xs.length < start.size) (hp : Reads p xs ys P) :
    Reads (TokenParser.below start fun c _ => p c) xs ys P := by
  intro c hc
  obtain ⟨a, c', hok, hc', ha⟩ := hp c hc
  refine ⟨a, c', ?_, hc', ha⟩
  rw [TokenParser.below, dif_pos (by rw [hc.size]; exact hless)]
  exact hok

/-! ### Repetition -/

/-- A repetition ends where its test fails. -/
theorem manyWhile_nil {t : Cursor → Bool} (ht : ∀ c : Cursor, c.At xs → t c = false) :
    Reads (TokenParser.manyWhile t p) xs xs (· = []) :=
  fun c hc => ⟨[], c, by rw [TokenParser.manyWhile, ht c hc, if_neg Bool.false_ne_true], hc, rfl⟩

/-- A repetition goes on behind an item that has a token. -/
theorem manyWhile_cons {t : Cursor → Bool} {S : List α → Prop} (ht : ∀ c : Cursor, c.At xs → t c = true)
    (hp : Reads p xs ys P) (hless : ys.length < xs.length) (hmore : Reads (TokenParser.manyWhile t p) ys zs S) :
    Reads (TokenParser.manyWhile t p) xs zs fun as => ∃ a as', as = a :: as' ∧ P a ∧ S as' := by
  intro c hc
  obtain ⟨a, c', hok, hc', ha⟩ := hp c hc
  obtain ⟨as, c'', hok', hc'', has⟩ := hmore c' hc'
  refine ⟨a :: as, c'', ?_, hc'', a, as, rfl, ha, has⟩
  rw [TokenParser.manyWhile, ht c hc, if_pos rfl]
  simp only [hok, hok', if_pos (show c'.size < c.size by rw [hc.size, hc'.size]; exact hless)]

/-- A repetition reads items one behind the other, if each is read where the next one or the end follows it. -/
theorem manyWhile {ι : Type} {t : Cursor → Bool} (spell : ι → List Spelling) (Ends : List Spelling → Prop)
    {S : ι → α → Prop} {n : Nat} (hstart : ∀ i xs (c : Cursor), Ends xs → c.At (spell i ++ xs) → t c = true)
    (hstop : ∀ c : Cursor, c.At zs → t c = false) (hspell : ∀ i, spell i ≠ [])
    (hnext : ∀ i xs, Ends (spell i ++ xs)) (hends : Ends zs)
    (hp : ∀ i xs, Ends xs → (spell i ++ xs).length ≤ n → Reads p (spell i ++ xs) xs (S i)) (is : List ι)
    (hn : (is.flatMap spell ++ zs).length ≤ n) :
    Reads (TokenParser.manyWhile t p) (is.flatMap spell ++ zs) zs (List.Forall₂ S is) := by
  induction is with
  | nil => exact (manyWhile_nil hstop).mono fun as has => has ▸ .nil
  | cons i is ih =>
    have hpositive := List.length_pos_of_ne_nil (hspell i)
    rw [List.flatMap_cons, List.append_assoc] at hn ⊢
    have hlength : (spell i ++ (is.flatMap spell ++ zs)).length = (spell i).length + (is.flatMap spell ++ zs).length :=
      List.length_append
    have hfollows : Ends (is.flatMap spell ++ zs) := by
      cases is with
      | nil => exact hends
      | cons j js => rw [List.flatMap_cons, List.append_assoc]; exact hnext j _
    refine (manyWhile_cons (fun c => hstart i _ c hfollows) (hp i _ hfollows hn) (by omega) (ih (by omega))).mono ?_
    rintro as ⟨a, as', rfl, ha, has'⟩
    exact .cons ha has'

end ReadsFrom

end ServiceCatalog
