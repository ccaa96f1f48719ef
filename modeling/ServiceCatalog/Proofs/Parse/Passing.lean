import ServiceCatalog.Parse.Type
import ServiceCatalog.Proofs.Parse.Brackets

/-!
# What a parser passes

A parser that succeeds has passed a run of tokens.  `TokenParser.Takes` says of which kind the run is, for any
kind that is closed under putting runs one behind the other, and each combinator of the parsers takes what its
parts do.  So a parser is taken apart along its own text, and what is left are the places where a token is passed
without a look at it: there the test before it says which token it is.

* `TokenParser.Passes`: the parsers that take a `Run`.
* `AdmitsTypes`: the kinds of runs to which everything belongs that types and annotations are made of.
-/

namespace ServiceCatalog

/-! ## Kinds of runs -/

/-- Whether a kind of runs has the empty one, and with two runs the one behind the other. -/
class ClosedUnderAppend (S : List Token → Prop) : Prop where
  nil : S []
  append {ts us : List Token} : S ts → S us → S (ts ++ us)

/-- Whether a token is neither a bracket nor begins a directive of a file header. -/
def TokenKind.isPlain : TokenKind → Bool
  | leftParen | rightParen | leftBracket | rightBracket | leftBrace | rightBrace | «package» | «import» => false
  | _ => true

/-- Whether everything belongs to a kind that types and annotations are made of: single tokens, and groups in round and
square brackets. -/
class AdmitsTypes (S : List Token → Prop) : Prop extends ClosedUnderAppend S where
  single {t : Token} : t.kind.isPlain = true → S [t]
  group {opening closing : Token} {inner : List Token} : opening.kind.closing? = some closing.kind →
    opening.kind ≠ .leftBrace → Run false true inner → S (opening :: inner ++ [closing])
  run {ts : List Token} : S ts → Run false true ts

/-- A token of a plain kind may stand in a type. -/
theorem AdmitsTypes.of_kind {S : List Token → Prop} [AdmitsTypes S] {k : TokenKind} (h : k.isPlain = true) (t : Token)
    (ht : t.kind = k) : S [t] :=
  AdmitsTypes.single (ht ▸ h)

instance (loose braces : Bool) : ClosedUnderAppend (Run loose braces) := ⟨.nil, .append⟩

theorem TokenKind.not_isOpening_of_isPlain {k : TokenKind} (h : k.isPlain = true) :
    k.isOpening = false ∧ k.isClosing = false := by
  cases k <;> first | exact ⟨rfl, rfl⟩ | contradiction

/-- A token of a kind that is no bracket is a run. -/
theorem Run.of_kind {loose braces : Bool} {k : TokenKind} {t : Token} (hopening : k.isOpening = false)
    (hclosing : k.isClosing = false) (ht : t.kind = k) : Run loose braces [t] :=
  .plain (ht ▸ hopening) (ht ▸ hclosing)

instance (braces : Bool) : AdmitsTypes (Run false braces) where
  single h := .plain (TokenKind.not_isOpening_of_isPlain h).1 (TokenKind.not_isOpening_of_isPlain h).2
  group hpair hbrace hinner := .groupOf hpair (fun h => absurd h hbrace) hinner
  run h := h.mono id fun _ => rfl

/-! ## From one cursor to another -/

namespace Cursor

/-- The end of the file is told by its kind: it has it, and no token before it has. -/
structure Sound (c : Cursor) : Prop where
  eof : c.eof.kind = .eof
  rest : ∀ t ∈ c.rest, t.kind ≠ .eof

theorem Sound.advance {c : Cursor} (hc : c.Sound) : c.advance.Sound := by
  obtain ⟨previous, _ | ⟨t, ts⟩, eof⟩ := c
  · exact hc
  · exact ⟨hc.eof, fun u hu => hc.rest u (List.mem_cons_of_mem _ hu)⟩

/-- Whether only a run of a kind is between a cursor and another one. -/
def LeadsBy (S : List Token → Prop) (c c' : Cursor) : Prop := ∃ ts, c.rest = ts ++ c'.rest ∧ c'.eof = c.eof ∧ S ts

/-- Whether only a run of tokens is between a cursor and another one. -/
def Leads (loose braces : Bool) (c c' : Cursor) : Prop :=
  ∃ ts, c.rest = ts ++ c'.rest ∧ c'.eof = c.eof ∧ Run loose braces ts

namespace LeadsBy

variable {S S' : List Token → Prop} {c c' c'' : Cursor}

theorem refl [ClosedUnderAppend S] : LeadsBy S c c := ⟨[], rfl, rfl, ClosedUnderAppend.nil⟩

theorem trans [ClosedUnderAppend S] (h : LeadsBy S c c') (h' : LeadsBy S c' c'') : LeadsBy S c c'' := by
  obtain ⟨ts, hts, heof, hrun⟩ := h
  obtain ⟨us, hus, heof', hrun'⟩ := h'
  exact ⟨ts ++ us, by rw [hts, hus, List.append_assoc], heof'.trans heof, ClosedUnderAppend.append hrun hrun'⟩

theorem mono (hS : ∀ ts, S ts → S' ts) (h : LeadsBy S c c') : LeadsBy S' c c' := by
  obtain ⟨ts, hts, heof, hrun⟩ := h
  exact ⟨ts, hts, heof, hS ts hrun⟩

theorem sound (h : LeadsBy S c c') (hc : c.Sound) : c'.Sound := by
  obtain ⟨ts, hts, heof, -⟩ := h
  refine ⟨heof ▸ hc.eof, fun t ht => hc.rest t ?_⟩
  rw [hts]
  exact List.mem_append_right _ ht

theorem size_le (h : LeadsBy S c c') : c'.size ≤ c.size := by
  obtain ⟨ts, hts, -, -⟩ := h
  rw [size, size, hts, List.length_append]
  omega

/-- Where the next token is another one, one has been passed. -/
theorem size_lt (h : LeadsBy S c c') (hkind : c'.kind ≠ c.kind) : c'.size < c.size := by
  obtain ⟨_ | ⟨t, ts⟩, hts, heof, -⟩ := h
  · refine absurd ?_ hkind
    rw [kind, kind, peek, peek, peekNth, peekNth, hts, heof, List.nil_append]
  · rw [size, size, hts, List.length_append, List.length_cons]
    omega

end LeadsBy

namespace Leads

variable {loose braces : Bool} {c c' c'' : Cursor}

theorem refl : Leads loose braces c c := LeadsBy.refl

theorem trans (h : Leads loose braces c c') (h' : Leads loose braces c' c'') : Leads loose braces c c'' :=
  LeadsBy.trans h h'

theorem mono {loose' braces' : Bool} (hloose : loose = true → loose' = true) (hbraces : braces = true → braces' = true)
    (h : Leads loose braces c c') : Leads loose' braces' c c' :=
  LeadsBy.mono (fun _ => Run.mono hloose hbraces) h

theorem sound (h : Leads loose braces c c') (hc : c.Sound) : c'.Sound := LeadsBy.sound h hc

theorem size_le (h : Leads loose braces c c') : c'.size ≤ c.size := LeadsBy.size_le h

theorem size_lt (h : Leads loose braces c c') (hkind : c'.kind ≠ c.kind) : c'.size < c.size := LeadsBy.size_lt h hkind

end Leads

variable {S : List Token → Prop} {loose braces : Bool} {c c' c'' : Cursor}

/-- Moving on passes the next token. -/
theorem leadsBy_advance [ClosedUnderAppend S] (h : S [c.peek]) : LeadsBy S c c.advance := by
  obtain ⟨previous, _ | ⟨t, ts⟩, eof⟩ := c
  · exact .refl
  · exact ⟨[t], rfl, rfl, h⟩

/-- Moving on passes the next token, if it is no bracket. -/
theorem leads_advance (hopening : c.kind.isOpening = false) (hclosing : c.kind.isClosing = false) :
    Leads loose braces c c.advance :=
  leadsBy_advance (.plain hopening hclosing)

/-- Before the end of the file there is a next token. -/
theorem Sound.exists_cons (hc : c.Sound) (h : c.kind ≠ .eof) : ∃ t ts, c.rest = t :: ts ∧ c.peek = t := by
  obtain ⟨previous, _ | ⟨t, ts⟩, eof⟩ := c
  · exact absurd hc.eof h
  · exact ⟨t, ts, rfl, rfl⟩

/-- The token that is stepped over is the one passed last. -/
theorem previous_advance (hc : c.Sound) (h : c.kind ≠ .eof) : c.advance.previous = some c.peek := by
  obtain ⟨t, ts, hrest, hpeek⟩ := hc.exists_cons h
  rw [advance, hrest, hpeek]

/-- At the end of the file there is none. -/
theorem Sound.rest_eq_nil (hc : c.Sound) (h : c.kind = .eof) : c.rest = [] := by
  obtain ⟨previous, _ | ⟨t, ts⟩, eof⟩ := c
  · rfl
  · exact absurd h (hc.rest t (List.mem_cons_self ..))

theorem size_advance_lt (hc : c.Sound) (h : c.kind ≠ .eof) : c.advance.size < c.size := by
  obtain ⟨t, ts, hrest, -⟩ := hc.exists_cons h
  rw [size_advance, size, hrest, List.length_cons]
  omega

/-- The second token is the next one behind the first. -/
theorem kind_advance (hc : c.Sound) (h : c.kind ≠ .eof) : c.advance.kind = c.secondKind := by
  obtain ⟨previous, _ | ⟨t, ts⟩, eof⟩ := c
  · exact absurd hc.eof h
  · rfl

/-- A run between an opening bracket and the closing one is passed as a group with them. -/
theorem leadsBy_group (hc : c.Sound) (hpair : c.kind.closing? = some c'.kind) (h : c.advance.Leads false true c')
    (hgroup : ∀ inner, Run false true inner → S (c.peek :: inner ++ [c'.peek])) : c.LeadsBy S c'.advance := by
  have hopening : c.kind ≠ .eof := fun hkind => by
    rw [hkind] at hpair
    contradiction
  obtain ⟨t, ts, hrest, hpeek⟩ := hc.exists_cons hopening
  have hadvance : c.advance.rest = ts := by rw [advance, hrest]
  have hc' : c'.Sound := h.sound hc.advance
  obtain ⟨inner, hinner, heof, hrun⟩ := h
  have hclosing : c'.kind ≠ .eof := fun hkind => by
    have := TokenKind.isClosing_of_closing? hpair
    rw [hkind] at this
    contradiction
  obtain ⟨t', ts', hrest', hpeek'⟩ := hc'.exists_cons hclosing
  refine ⟨c.peek :: inner ++ [c'.peek], ?_, by rw [eof_advance, heof, eof_advance], hgroup inner hrun⟩
  rw [hrest, ← hadvance, hinner, hrest', advance, hrest', hpeek, hpeek']
  simp

theorem isAt_iff {k : TokenKind} : c.isAt k = true ↔ c.kind = k := by
  rw [isAt, beq_iff_eq]

theorem kind_of_isAtWord {word : String} (h : c.isAtWord word = true) : c.kind = .identifier := by
  rw [isAtWord, Bool.and_eq_true] at h
  exact isAt_iff.mp h.1

end Cursor

namespace TokenParser

open Cursor

/-! ## Passing -/

/-- A parser followed by another one succeeds where both do. -/
theorem bind_eq_ok {ε σ α β : Type} {p : EStateM ε σ α} {f : α → EStateM ε σ β} {s : σ} {b : β} {s'' : σ} :
    (p >>= f) s = .ok b s'' ↔ ∃ a s', p s = .ok a s' ∧ f a s' = .ok b s'' := by
  show EStateM.bind p f s = _ ↔ _
  unfold EStateM.bind
  cases p s with
  | ok a s' => exact ⟨fun h => ⟨a, s', rfl, h⟩, fun ⟨_, _, heq, h⟩ => by cases heq; exact h⟩
  | error e s' => simp

/-- What a parser that wants a token answers. -/
theorem expect_eq_ok {k : TokenKind} {c c' : Cursor} {t : Token} :
    expect k c = .ok t c' ↔ c.kind = k ∧ c.peek = t ∧ c.advance = c' := by
  rw [expect, ← isAt_iff]
  cases c.isAt k <;> simp

/-- What a parser that wants an identifier answers. -/
theorem identifier_eq_ok {c c' : Cursor} {i : Ident} :
    identifier c = .ok i c' ↔ c.kind = .identifier ∧ ⟨c.peek.lexeme, c.peek.span⟩ = i ∧ c.advance = c' := by
  rw [identifier, ← isAt_iff]
  cases c.isAt .identifier <;> simp

/-- Whether a parser passes only runs of a kind, where it is called under a condition. -/
def Takes (S : List Token → Prop) (P : Cursor → Prop) {α : Type} (p : TokenParser α) : Prop :=
  ∀ c, c.Sound → P c → ∀ a c', p c = .ok a c' → c.LeadsBy S c'

namespace Takes

variable {S S' : List Token → Prop} {P : Cursor → Prop} {α β : Type} {p q : TokenParser α} {f : α → TokenParser β}

theorem weaken {P' : Cursor → Prop} (h : ∀ c, P c → P' c) (hp : Takes S P' p) : Takes S P p :=
  fun c hc hpre => hp c hc (h c hpre)

theorem anywhere (hp : Takes S (fun _ => True) p) : Takes S P p := hp.weaken fun _ _ => trivial

theorem mono (hS : ∀ ts, S ts → S' ts) (hp : Takes S P p) : Takes S' P p :=
  fun c hc hpre a c' hok => (hp c hc hpre a c' hok).mono hS

/-- A parser that never succeeds passes nothing. -/
theorem of_fails (h : ∀ c, ∃ e c', p c = .error e c') : Takes S P p := by
  intro c _ _ a c' hok
  obtain ⟨e, c'', herror⟩ := h c
  rw [herror] at hok
  contradiction

/-- What stands behind a failure does not matter. -/
theorem failAtNext_bind (e : Token → ParseError) :
    Takes S P ((TokenParser.failAtNext e : TokenParser α) >>= f) :=
  of_fails fun _ => ⟨_, _, rfl⟩

/-- A branch under a test of the cursor passes what the branches do. -/
theorem ite_test {t : Cursor → Bool} {p q : TokenParser β} (hp : Takes S (fun c => P c ∧ t c = true) p)
    (hq : Takes S (fun c => P c ∧ t c = false) q) :
    Takes S P (TokenParser.test t >>= fun b => if b = true then p else q) := by
  intro c hc hpre b c' hok
  obtain ⟨_, _, ht, hok⟩ := bind_eq_ok.mp hok
  cases ht
  cases htest : t c with
  | true => exact hp c hc ⟨hpre, htest⟩ b c' (by simpa [htest] using hok)
  | false => exact hq c hc ⟨hpre, htest⟩ b c' (by simpa [htest] using hok)

theorem ite {b : Bool} (hp : Takes S P p) (hq : Takes S P q) : Takes S P (if b = true then p else q) := by
  cases b
  · exact hq
  · exact hp

variable [ClosedUnderAppend S]

/-- A parser that stays where it is passes nothing. -/
theorem of_stays (h : ∀ c, ∃ a, p c = .ok a c) : Takes S P p := by
  intro c _ _ a c' hok
  obtain ⟨a', hstay⟩ := h c
  rw [hstay] at hok
  cases hok
  exact .refl

theorem pure (a : α) : Takes S P (Pure.pure a : TokenParser α) := of_stays fun _ => ⟨a, rfl⟩

theorem here : Takes S P TokenParser.here := of_stays fun c => ⟨c, rfl⟩

theorem nextSpan : Takes S P TokenParser.nextSpan := of_stays fun c => ⟨c.peek.span, rfl⟩

theorem spanFrom (start : Span) : Takes S P (TokenParser.spanFrom start) := of_stays fun _ => ⟨_, rfl⟩

theorem textSince (start : Cursor) : Takes S P (TokenParser.textSince start) := of_stays fun _ => ⟨_, rfl⟩

/-- One parser behind another passes what they both pass.  What is known in front of the second one is what
the first leaves behind. -/
theorem bind_of {Q : α → Cursor → Prop} (hp : Takes S P p)
    (hmid : ∀ c, c.Sound → P c → ∀ a c', p c = .ok a c' → Q a c') (hf : ∀ a, Takes S (Q a) (f a)) :
    Takes S P (p >>= f) := by
  intro c hc hpre b c'' hok
  obtain ⟨a, c', ha, hb⟩ := bind_eq_ok.mp hok
  have hlead := hp c hc hpre a c' ha
  exact hlead.trans (hf a c' (hlead.sound hc) (hmid c hc hpre a c' ha) b c'' hb)

theorem bind (hp : Takes S P p) (hf : ∀ a, Takes S (fun _ => True) (f a)) : Takes S P (p >>= f) :=
  bind_of hp (fun _ _ _ _ _ _ => trivial) hf

/-- The next token is passed unseen only where it is known to belong to the kind of runs. -/
theorem next (h : ∀ c, P c → S [c.peek]) : Takes S P TokenParser.next := by
  intro c _ hpre a c' hok
  cases hok
  exact leadsBy_advance (h c hpre)

/-- Passing a token if a test says so. -/
private theorem takesTested {t : Cursor → Bool} {a b : Cursor → α} (hS : ∀ c, t c = true → S [c.peek])
    (hp : ∀ c, p c = if t c = true then .ok (a c) c.advance else .ok (b c) c) : Takes S P p := by
  intro c _ _ x c' hok
  rw [hp] at hok
  split at hok
  · next ht =>
    cases hok
    exact leadsBy_advance (hS c ht)
  · cases hok
    exact .refl

theorem eat {k : TokenKind} (h : ∀ t : Token, t.kind = k → S [t]) : Takes S P (TokenParser.eat k) :=
  takesTested (fun c hc => h c.peek (isAt_iff.mp hc)) fun _ => rfl

theorem eat? {k : TokenKind} (h : ∀ t : Token, t.kind = k → S [t]) : Takes S P (TokenParser.eat? k) :=
  takesTested (fun c hc => h c.peek (isAt_iff.mp hc)) fun _ => rfl

theorem eatWord (word : String) (h : ∀ t : Token, t.kind = .identifier → S [t]) :
    Takes S P (TokenParser.eatWord word) :=
  takesTested (fun c hc => h c.peek (kind_of_isAtWord hc)) fun _ => rfl

/-- A parser that wants a token passes nothing else. -/
private theorem takesWanted {k : TokenKind} {a : Cursor → α} {e : Cursor → ParseError}
    (h : ∀ t : Token, t.kind = k → S [t])
    (hp : ∀ c, p c = if c.isAt k = true then .ok (a c) c.advance else .error (e c) c) : Takes S P p := by
  intro c _ _ x c' hok
  rw [hp] at hok
  split at hok
  · next ht =>
    cases hok
    exact leadsBy_advance (h c.peek (isAt_iff.mp ht))
  · contradiction

theorem expect {k : TokenKind} (h : ∀ t : Token, t.kind = k → S [t]) : Takes S P (TokenParser.expect k) :=
  takesWanted h fun _ => rfl

theorem identifier (h : ∀ t : Token, t.kind = .identifier → S [t]) : Takes S P TokenParser.identifier :=
  takesWanted h fun _ => rfl

/-- Behind an identifier stands the second token. -/
theorem identifier_bind {k : TokenKind} {g : Ident → TokenParser β} (h : ∀ t : Token, t.kind = .identifier → S [t])
    (hsecond : ∀ c, P c → c.secondKind = k) (hg : ∀ i, Takes S (fun c => c.kind = k) (g i)) :
    Takes S P (TokenParser.identifier >>= g) := by
  refine bind_of (Q := fun _ c => c.kind = k) (identifier h) (fun c hc hpre i c' hok => ?_) hg
  obtain ⟨hkind, -, rfl⟩ := identifier_eq_ok.mp hok
  rw [kind_advance hc (by rw [hkind]; nofun), hsecond c hpre]

/-- A repeated parser passes what each turn does. -/
theorem manyWhile {t : Cursor → Bool} (hp : Takes S (fun c => t c = true) p) :
    Takes S P (TokenParser.manyWhile t p) := by
  intro c hc hpre as c' hok
  clear hpre
  fun_induction TokenParser.manyWhile t p c generalizing as c' with
  | case1 c ht e c'' herror => contradiction
  | case2 c ht a c₁ hfirst hless e c₂ herror => contradiction
  | case3 c ht a c₁ hfirst hless as' c₂ hothers ih =>
    cases hok
    have hlead := hp c hc ht a c₁ hfirst
    exact hlead.trans (ih (hlead.sound hc) _ _ hothers)
  | case4 c ht a c₁ hfirst hless =>
    cases hok
    exact hp c hc ht a _ hfirst
  | case5 c ht =>
    cases hok
    exact .refl

/-- A parser that is tried passes what it does, or nothing. -/
theorem attempt (hp : Takes S P p) : Takes S P (TokenParser.attempt p) := by
  intro c hc hpre a c' hok
  unfold TokenParser.attempt at hok
  split at hok
  · next a' c'' h =>
    cases hok
    exact hp c hc hpre a' c' h
  · cases hok
    exact .refl

end Takes

/-- Whether a parser passes only runs of tokens, where it is called under a condition. -/
def Passes (loose braces : Bool) (P : Cursor → Prop) {α : Type} (p : TokenParser α) : Prop :=
  ∀ c, c.Sound → P c → ∀ a c', p c = .ok a c' → c.Leads loose braces c'

namespace Passes

variable {loose braces : Bool} {P : Cursor → Prop} {α β : Type} {p q : TokenParser α} {f : α → TokenParser β}

theorem weaken {P' : Cursor → Prop} (h : ∀ c, P c → P' c) (hp : Passes loose braces P' p) :
    Passes loose braces P p :=
  Takes.weaken h hp

theorem anywhere (hp : Passes loose braces (fun _ => True) p) : Passes loose braces P p := Takes.anywhere hp

theorem mono {loose' braces' : Bool} (hloose : loose = true → loose' = true)
    (hbraces : braces = true → braces' = true) (hp : Passes loose braces P p) : Passes loose' braces' P p :=
  Takes.mono (fun _ => Run.mono hloose hbraces) hp

theorem pure (a : α) : Passes loose braces P (Pure.pure a : TokenParser α) := Takes.pure a

theorem here : Passes loose braces P TokenParser.here := Takes.here

theorem nextSpan : Passes loose braces P TokenParser.nextSpan := Takes.nextSpan

theorem spanFrom (start : Span) : Passes loose braces P (TokenParser.spanFrom start) := Takes.spanFrom start

theorem textSince (start : Cursor) : Passes loose braces P (TokenParser.textSince start) := Takes.textSince start

theorem failAtNext_bind (e : Token → ParseError) :
    Passes loose braces P ((TokenParser.failAtNext e : TokenParser α) >>= f) :=
  Takes.failAtNext_bind e

theorem bind_of {Q : α → Cursor → Prop} (hp : Passes loose braces P p)
    (hmid : ∀ c, c.Sound → P c → ∀ a c', p c = .ok a c' → Q a c')
    (hf : ∀ a, Passes loose braces (Q a) (f a)) : Passes loose braces P (p >>= f) :=
  Takes.bind_of hp hmid hf

theorem bind (hp : Passes loose braces P p) (hf : ∀ a, Passes loose braces (fun _ => True) (f a)) :
    Passes loose braces P (p >>= f) :=
  Takes.bind hp hf

theorem ite_test {t : Cursor → Bool} {p q : TokenParser β}
    (hp : Passes loose braces (fun c => P c ∧ t c = true) p)
    (hq : Passes loose braces (fun c => P c ∧ t c = false) q) :
    Passes loose braces P (TokenParser.test t >>= fun b => if b = true then p else q) :=
  Takes.ite_test hp hq

theorem ite {b : Bool} (hp : Passes loose braces P p) (hq : Passes loose braces P q) :
    Passes loose braces P (if b = true then p else q) :=
  Takes.ite hp hq

/-- The next token is passed unseen only where it is known to be no bracket. -/
theorem next (h : ∀ c, P c → c.kind.isOpening = false ∧ c.kind.isClosing = false) :
    Passes loose braces P TokenParser.next :=
  Takes.next fun c hc => .plain (h c hc).1 (h c hc).2

section Kinds

variable {k : TokenKind} (hopening : k.isOpening = false) (hclosing : k.isClosing = false)

include hopening hclosing

theorem eat : Passes loose braces P (TokenParser.eat k) := Takes.eat fun _ => Run.of_kind hopening hclosing

theorem eat? : Passes loose braces P (TokenParser.eat? k) := Takes.eat? fun _ => Run.of_kind hopening hclosing

theorem expect : Passes loose braces P (TokenParser.expect k) := Takes.expect fun _ => Run.of_kind hopening hclosing

end Kinds

theorem eatWord (word : String) : Passes loose braces P (TokenParser.eatWord word) :=
  Takes.eatWord word fun _ => Run.of_kind rfl rfl

theorem identifier : Passes loose braces P TokenParser.identifier := Takes.identifier fun _ => Run.of_kind rfl rfl

theorem identifier_bind {k : TokenKind} {g : Ident → TokenParser β} (hsecond : ∀ c, P c → c.secondKind = k)
    (hg : ∀ i, Passes loose braces (fun c => c.kind = k) (g i)) :
    Passes loose braces P (TokenParser.identifier >>= g) :=
  Takes.identifier_bind (fun _ => Run.of_kind rfl rfl) hsecond hg

theorem manyWhile {t : Cursor → Bool} (hp : Passes loose braces (fun c => t c = true) p) :
    Passes loose braces P (TokenParser.manyWhile t p) :=
  Takes.manyWhile hp

theorem attempt (hp : Passes loose braces P p) : Passes loose braces P (TokenParser.attempt p) := Takes.attempt hp

end Passes

/-! ## Groups -/

theorem takes_skipGroup {S : List Token → Prop} {P : Cursor → Prop}
    (hgroup : ∀ c, P c → ∀ closing inner, c.kind.closing? = some closing.kind → Run false true inner →
      S (c.peek :: inner ++ [closing])) : Takes S P skipGroup := by
  intro c hc hpre _ c' hok
  obtain ⟨opening, c₁, hnext, hok⟩ := bind_eq_ok.mp hok
  cases hnext
  cases hpair : c.peek.kind.closing? with
  | none =>
    rw [hpair] at hok
    cases hok
  | some due =>
    obtain ⟨t, ts, hrest, hpeek⟩ := hc.exists_cons fun h => by
      rw [kind] at h
      rw [h] at hpair
      contradiction
    have hadvance : c.advance.rest = ts := by rw [advance, hrest]
    simp only [hpair, closeGroups] at hok
    cases hending : (groupReach [due] c.advance.rest).ending with
    | unclosed => simp [hending] at hok
    | mismatched due found => simp [hending] at hok
    | closed =>
      obtain ⟨inner, closing, rest, hts, hinner, hclosing, -, hlength⟩ := groupReach_closed hending
      simp only [hending, EStateM.Result.ok.injEq, true_and] at hok
      have hstop : c'.rest = rest := by
        rw [← hok, skip, hlength, hts]
        simp [groupReach]
      refine ⟨c.peek :: inner ++ [closing], ?_, by rw [← hok]; exact eof_advance c, ?_⟩
      · rw [hrest, hpeek, ← hadvance, hts, hstop]
        simp
      · exact hgroup c hpre closing inner (by rw [kind, hpair, hclosing]) hinner

theorem passes_skipGroup {loose braces : Bool} {P : Cursor → Prop}
    (hbrace : ∀ c, P c → c.kind = .leftBrace → braces = true) : Passes loose braces P skipGroup :=
  takes_skipGroup fun c hc _ _ hpair hinner => .groupOf hpair (hbrace c hc) hinner

/-- One step passes a token, unless it is a bracket, or a whole group. -/
theorem passes_skipOne {loose braces : Bool} {P : Cursor → Prop}
    (hbrace : ∀ c, P c → c.kind = .leftBrace → braces = true)
    (hclosing : ∀ c, P c → c.kind.isClosing = true → loose = true ∧ c.kind ≠ .rightBrace) :
    Passes loose braces P skipOne := by
  intro c hc hpre _ c' hok
  unfold skipOne at hok
  split at hok
  · exact passes_skipGroup hbrace c hc hpre _ c' hok
  · next hopening =>
    cases hok
    by_cases hend : c.kind = .eof
    · exact leads_advance (by rw [hend]; rfl) (by rw [hend]; rfl)
    · obtain ⟨t, ts, hrest, hpeek⟩ := hc.exists_cons hend
      have hkind : c.kind = t.kind := congrArg Token.kind hpeek
      have hadvance : c.advance.rest = ts := by rw [advance, hrest]
      refine ⟨[t], by rw [hadvance, hrest]; rfl, eof_advance c, .single ?_ ?_ .nil⟩
      · rw [← hkind, Bool.eq_false_iff]
        exact hopening
      · rw [← hkind]
        exact hclosing c hpre

/-- Tokens and groups up to a stop are a run, if it is stopped before the brackets that may not be passed. -/
theorem passes_skipUntil {loose braces : Bool} {P : Cursor → Prop} {stop : Cursor → Bool}
    (hbrace : ∀ c, stop c = false → c.kind = .leftBrace → braces = true)
    (hclosing : ∀ c, stop c = false → c.kind.isClosing = true → loose = true ∧ c.kind ≠ .rightBrace) :
    Passes loose braces P (skipUntil stop) := by
  have hgo : ∀ c, (!c.isAtEnd && !stop c) = true → stop c = false := fun c h => by
    rw [Bool.and_eq_true, Bool.not_eq_true'] at h
    simpa using h.2
  have hmany : Passes loose braces P (TokenParser.manyWhile (fun c => !c.isAtEnd && !stop c) skipOne) :=
    .manyWhile (passes_skipOne (fun c h => hbrace c (hgo c h)) fun c h => hclosing c (hgo c h))
  intro c hc hpre _ c' hok
  unfold skipUntil at hok
  split at hok
  · next as c'' h =>
    cases hok
    exact hmany c hc hpre as c' h
  · contradiction

/-- A parser between two brackets passes a group. -/
theorem takes_between {S : List Token → Prop} [ClosedUnderAppend S] {P : Cursor → Prop} {α β : Type}
    {opening closing : TokenKind} {p : TokenParser α} {f : Token → α → TokenParser β}
    (hpair : opening.closing? = some closing)
    (hgroup : ∀ t u inner, t.kind = opening → u.kind = closing → Run false true inner → S (t :: inner ++ [u]))
    (hp : Passes false true (fun _ => True) p) (hf : ∀ m a, Takes S (fun _ => True) (f m a)) :
    Takes S P (expect opening >>= fun m => p >>= fun a => expect closing >>= fun _ => f m a) := by
  intro c hc _ b c' hok
  obtain ⟨m, c₁, hopening, hok⟩ := bind_eq_ok.mp hok
  obtain ⟨a, c₂, hinner, hok⟩ := bind_eq_ok.mp hok
  obtain ⟨_, c₃, hclosing, hok⟩ := bind_eq_ok.mp hok
  obtain ⟨hkind, rfl, rfl⟩ := expect_eq_ok.mp hopening
  obtain ⟨hkind', rfl, rfl⟩ := expect_eq_ok.mp hclosing
  have hlead := hp c.advance hc.advance trivial a c₂ hinner
  have hwhole : c.LeadsBy S c₂.advance :=
    leadsBy_group hc (by rw [hkind, hkind', hpair]) hlead fun inner => hgroup _ _ inner hkind hkind'
  exact hwhole.trans (hf _ a c₂.advance (hwhole.sound hc) trivial b c' hok)

theorem passes_between {loose braces : Bool} {P : Cursor → Prop} {α β : Type} {opening closing : TokenKind}
    {p : TokenParser α} {f : Token → α → TokenParser β} (hpair : opening.closing? = some closing)
    (hbrace : opening = .leftBrace → braces = true) (hp : Passes false true (fun _ => True) p)
    (hf : ∀ m a, Passes loose braces (fun _ => True) (f m a)) :
    Passes loose braces P (expect opening >>= fun m => p >>= fun a => expect closing >>= fun _ => f m a) :=
  takes_between hpair (fun _ _ _ ht hu hinner => .groupOf (by rw [ht, hu, hpair]) (fun h => hbrace (ht ▸ h)) hinner) hp hf

end TokenParser

end ServiceCatalog
