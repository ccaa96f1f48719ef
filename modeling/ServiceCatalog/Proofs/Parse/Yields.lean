import ServiceCatalog.Proofs.Parse.Calls

/-!
# What parsers yield

`Yields b c p Q` says what a parser `p` answers that is called at a place `c` of a file beginning at `b`: it moves on,
what it reads and the place where it stops have a property `Q`, and its error is about a token of the file.  Other than
`Takes` and `Alike`, this is about one place and about what is read there, so the property of a construct can speak of
the place where it began, and each combinator passes on what is known about the parts.

A construct that is tried and given up is called again at the place where it began (`Yields.retry`), so what holds
there is not lost.
-/

namespace ServiceCatalog

/-- Whether an error is about a token of the file that begins at a place. -/
def ParseError.IsAbout (b : Cursor) (e : ParseError) : Prop := ∃ d, b.Precedes d ∧ e.span = d.peek.span

namespace TokenParser

open Cursor

variable {b c : Cursor} {α β : Type}

/-- What a parser answers at a place of a file. -/
structure Yields (b c : Cursor) (p : TokenParser α) (Q : α → Cursor → Prop) : Prop where
  reads : ∀ a c', p c = .ok a c' → c.Precedes c' ∧ Q a c'
  blames : ∀ e c', p c = .error e c' → c.Precedes c' ∧ e.IsAbout b

namespace Yields

variable {p q : TokenParser α} {f : α → TokenParser β} {Q R : α → Cursor → Prop} {T : β → Cursor → Prop}

theorem mono (h : Yields b c p R) (hQ : ∀ a c', c.Precedes c' → R a c' → Q a c') : Yields b c p Q where
  reads a c' hok := ⟨(h.reads a c' hok).1, hQ a c' (h.reads a c' hok).1 (h.reads a c' hok).2⟩
  blames := h.blames

/-- What is read is read where the parser is called. -/
theorem reading (h : Yields b c p Q) : Yields b c p fun a c' => p c = .ok a c' ∧ Q a c' where
  reads a c' hok := ⟨(h.reads a c' hok).1, hok, (h.reads a c' hok).2⟩
  blames := h.blames

/-- A parser that passes a token where it succeeds has passed one. -/
theorem consuming {P : Cursor → Prop} (h : Yields b c p Q) (hp : Consumes P p) (hc : c.Sound) (hP : P c) :
    Yields b c p fun a c' => c'.size < c.size ∧ Q a c' where
  reads a c' hok := ⟨(h.reads a c' hok).1, hp c hc hP a c' hok, (h.reads a c' hok).2⟩
  blames := h.blames

/-- An answer as it is. -/
theorem of_ok {a : α} {c' : Cursor} (h : p c = .ok a c') (hmoves : c.Precedes c') (hQ : Q a c') : Yields b c p Q where
  reads a' d hok := by
    rw [h] at hok
    cases hok
    exact ⟨hmoves, hQ⟩
  blames e d herror := by rw [h] at herror; contradiction

/-- An error as it is. -/
theorem of_error {e : ParseError} {c' : Cursor} (h : p c = .error e c') (hmoves : c.Precedes c') (he : e.IsAbout b) :
    Yields b c p Q where
  reads a d hok := by rw [h] at hok; contradiction
  blames e' d herror := by
    rw [h] at herror
    cases herror
    exact ⟨hmoves, he⟩

theorem of_eq {c₁ : Cursor} (h : p c = q c₁) (hmoves : c.Precedes c₁) (hq : Yields b c₁ q Q) : Yields b c p Q where
  reads a c' hok := (hq.reads a c' (h ▸ hok)).imp_left hmoves.trans
  blames e c' herror := (hq.blames e c' (h ▸ herror)).imp_left hmoves.trans

/-- What stands behind a parser is called where that one stopped, with what it read. -/
theorem bind (hp : Yields b c p R) (hf : ∀ a c', c.Precedes c' → R a c' → Yields b c' (f a) T) :
    Yields b c (p >>= f) T := by
  cases hfirst : p c with
  | error e c' =>
    obtain ⟨hmoves, he⟩ := hp.blames e c' hfirst
    exact of_error (by rw [bind_eq_match, hfirst]) hmoves he
  | ok a c' =>
    obtain ⟨hmoves, hR⟩ := hp.reads a c' hfirst
    exact of_eq (by rw [bind_eq_match, hfirst]) hmoves (hf a c' hmoves hR)

/-- What stands behind a parser that answers for sure. -/
theorem step {a : α} {c' : Cursor} (h : p c = .ok a c') (hmoves : c.Precedes c') (hf : Yields b c' (f a) T) :
    Yields b c (p >>= f) T :=
  of_eq (by rw [bind_eq_match, h]) hmoves hf

/-! ### Parsers without parts -/

theorem pure {a : α} (hQ : Q a c) : Yields b c (Pure.pure a) Q := of_ok rfl .refl hQ

theorem pure_bind {a : α} (hf : Yields b c (f a) T) : Yields b c (Pure.pure a >>= f) T := step rfl .refl hf

theorem here_bind {f : Cursor → TokenParser β} (hf : Yields b c (f c) T) : Yields b c (TokenParser.here >>= f) T :=
  step rfl .refl hf

theorem nextSpan_bind {f : Span → TokenParser β} (hf : Yields b c (f c.peek.span) T) :
    Yields b c (TokenParser.nextSpan >>= f) T :=
  step rfl .refl hf

theorem spanFrom_bind {start : Span} {f : Span → TokenParser β} (hf : Yields b c (f (c.spanFrom start)) T) :
    Yields b c (TokenParser.spanFrom start >>= f) T :=
  step rfl .refl hf

theorem textSince_bind {start : Cursor} {f : String → TokenParser β} (hf : Yields b c (f (Token.text (start.between c))) T) :
    Yields b c (TokenParser.textSince start >>= f) T :=
  step rfl .refl hf

theorem next {Q : Token → Cursor → Prop} (hQ : Q c.peek c.advance) : Yields b c TokenParser.next Q :=
  of_ok rfl .advance hQ

theorem next_bind {f : Token → TokenParser β} (hf : Yields b c.advance (f c.peek) T) :
    Yields b c (TokenParser.next >>= f) T :=
  step rfl .advance hf

/-- The error of the next token. -/
theorem failAtNext {e : Token → ParseError} (hc : b.Precedes c) (he : (e c.peek).span = c.peek.span) :
    Yields b c (TokenParser.failAtNext e) Q :=
  of_error rfl .refl ⟨c, hc, he⟩

theorem failAtNext_bind {e : Token → ParseError} (hc : b.Precedes c) (he : (e c.peek).span = c.peek.span) :
    Yields b c (TokenParser.failAtNext e >>= f) T :=
  bind (R := fun _ _ => False) (failAtNext hc he) fun _ _ _ h => h.elim

theorem span_unexpected {e : Token → ParseError} (he : ∀ t, (e t).span = t.span) (t : Token) :
    (unexpected e t).span = t.span := by
  unfold unexpected
  split
  · rfl
  · exact he t

theorem expect {k : TokenKind} {Q : Token → Cursor → Prop} (hc : b.Precedes c) (hQ : c.kind = k → Q c.peek c.advance) :
    Yields b c (TokenParser.expect k) Q := by
  by_cases hat : c.isAt k = true
  · exact of_ok (by rw [TokenParser.expect, if_pos hat]) .advance (hQ (isAt_iff.mp hat))
  · exact of_error (by rw [TokenParser.expect, if_neg hat]) .refl ⟨c, hc, span_unexpected (fun _ => rfl) c.peek⟩

theorem identifier {Q : Ident → Cursor → Prop} (hc : b.Precedes c)
    (hQ : c.kind = .identifier → Q ⟨c.peek.lexeme, c.peek.span⟩ c.advance) : Yields b c TokenParser.identifier Q := by
  by_cases hat : c.isAt .identifier = true
  · exact of_ok (by rw [TokenParser.identifier, if_pos hat]) .advance (hQ (isAt_iff.mp hat))
  · exact of_error (by rw [TokenParser.identifier, if_neg hat]) .refl ⟨c, hc, span_unexpected (fun _ => rfl) c.peek⟩

theorem eat?_bind {k : TokenKind} {f : Option Token → TokenParser β} (hsome : Yields b c.advance (f (some c.peek)) T)
    (hnone : Yields b c (f none) T) : Yields b c (TokenParser.eat? k >>= f) T := by
  by_cases hat : c.isAt k = true
  · exact step (by rw [TokenParser.eat?, if_pos hat]) .advance hsome
  · exact step (by rw [TokenParser.eat?, if_neg hat]) .refl hnone

/-- A token may be passed, or none. -/
theorem eat_bind {k : TokenKind} {f : Bool → TokenParser β} (hf : ∀ found c', c.Precedes c' → Yields b c' (f found) T) :
    Yields b c (TokenParser.eat k >>= f) T := by
  by_cases hat : c.isAt k = true
  · exact step (by rw [TokenParser.eat, if_pos hat]) .advance (hf true c.advance .advance)
  · exact step (by rw [TokenParser.eat, if_neg hat]) .refl (hf false c .refl)

theorem eatWord_bind {word : String} {f : Bool → TokenParser β}
    (hf : ∀ found c', c.Precedes c' → Yields b c' (f found) T) : Yields b c (TokenParser.eatWord word >>= f) T := by
  by_cases hat : c.isAtWord word = true
  · exact step (by rw [TokenParser.eatWord, if_pos hat]) .advance (hf true c.advance .advance)
  · exact step (by rw [TokenParser.eatWord, if_neg hat]) .refl (hf false c .refl)

/-! ### Tests, repetitions and trials -/

theorem ite {found : Bool} (htrue : found = true → Yields b c p Q) (hfalse : found = false → Yields b c q Q) :
    Yields b c (if found = true then p else q) Q := by
  cases found with
  | true => exact htrue rfl
  | false => exact hfalse rfl

/-- A test decides how it goes on. -/
theorem test_bind {t : Cursor → Bool} {f : Bool → TokenParser β} (hf : Yields b c (f (t c)) T) :
    Yields b c (TokenParser.test t >>= f) T :=
  step rfl .refl hf

theorem ite_test {t : Cursor → Bool} (htrue : t c = true → Yields b c p Q) (hfalse : t c = false → Yields b c q Q) :
    Yields b c (TokenParser.test t >>= fun found => if found = true then p else q) Q :=
  test_bind (ite htrue hfalse)

/-- What each turn of a repetition reads has a property. -/
theorem manyWhile {t : Cursor → Bool} {R : α → Prop}
    (hitem : ∀ d, c.Precedes d → t d = true → Yields b d p fun a _ => R a) :
    Yields b c (TokenParser.manyWhile t p) fun as _ => ∀ a ∈ as, R a := by
  induction hsize : c.size using Nat.strongRecOn generalizing c with
  | _ size ih =>
    by_cases ht : t c = true
    · have hfirst := hitem c .refl ht
      cases hp : p c with
      | error e c₁ =>
        obtain ⟨hmoves, he⟩ := hfirst.blames e c₁ hp
        exact of_error (by rw [TokenParser.manyWhile.eq_def, if_pos ht, hp]) hmoves he
      | ok a c₁ =>
        obtain ⟨hmoves, ha⟩ := hfirst.reads a c₁ hp
        by_cases hturn : c₁.size < c.size
        · have hothers := ih c₁.size (hsize ▸ hturn) (fun d hd => hitem d (hmoves.trans hd)) rfl
          cases hmany : TokenParser.manyWhile t p c₁ with
          | error e c₂ =>
            obtain ⟨hmoves', he⟩ := hothers.blames e c₂ hmany
            have hall : TokenParser.manyWhile t p c = .error e c₂ := by
              rw [TokenParser.manyWhile.eq_def, if_pos ht, hp]
              simp only [if_pos hturn, hmany]
            exact of_error hall (hmoves.trans hmoves') he
          | ok as c₂ =>
            obtain ⟨hmoves', has⟩ := hothers.reads as c₂ hmany
            have hall : TokenParser.manyWhile t p c = .ok (a :: as) c₂ := by
              rw [TokenParser.manyWhile.eq_def, if_pos ht, hp]
              simp only [if_pos hturn, hmany]
            exact of_ok hall (hmoves.trans hmoves') (List.forall_mem_cons.mpr ⟨ha, has⟩)
        · have hall : TokenParser.manyWhile t p c = .ok [a] c₁ := by
            rw [TokenParser.manyWhile.eq_def, if_pos ht, hp]
            simp only [if_neg hturn]
          exact of_ok hall hmoves (List.forall_mem_singleton.mpr ha)
    · exact of_ok (by rw [TokenParser.manyWhile.eq_def, if_neg ht]) .refl fun _ h => absurd h List.not_mem_nil

/-- What is tried is given up at the place where it began. -/
theorem attempt (hp : Yields b c p Q) :
    Yields b c (TokenParser.attempt p) fun found c' => (found = none ∧ c' = c) ∨ ∃ a, found = some a ∧ Q a c' := by
  cases hfirst : p c with
  | error e c' => exact of_ok (by rw [TokenParser.attempt, hfirst]) .refl (.inl ⟨rfl, rfl⟩)
  | ok a c' =>
    obtain ⟨hmoves, hQ⟩ := hp.reads a c' hfirst
    exact of_ok (by rw [TokenParser.attempt, hfirst]) hmoves (.inr ⟨a, rfl, hQ⟩)

/-- A construct that was given up is followed by another one at the place where it began. -/
theorem retry {p : TokenParser α} {f : α → TokenParser β} (hp : Yields b c p R)
    (hf : ∀ a c', c.Precedes c' → R a c' →
      Yields b c' (f a) T ∨ ∃ q : TokenParser β, f a c' = q c ∧ Yields b c q T) :
    Yields b c (p >>= f) T := by
  cases hfirst : p c with
  | error e c' =>
    obtain ⟨hmoves, he⟩ := hp.blames e c' hfirst
    exact of_error (by rw [bind_eq_match, hfirst]) hmoves he
  | ok a c' =>
    obtain ⟨hmoves, hR⟩ := hp.reads a c' hfirst
    rcases hf a c' hmoves hR with hgoes | ⟨q, hback, hq⟩
    · exact of_eq (by rw [bind_eq_match, hfirst]) hmoves hgoes
    · exact of_eq (by rw [bind_eq_match, hfirst]; exact hback) .refl hq

end Yields

end TokenParser

end ServiceCatalog
