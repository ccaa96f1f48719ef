import Mathlib.Data.List.Pairwise
import ServiceCatalog.Token.Lexeme

/-!
# The order of lexemes

Lexemes stand in a text one behind the other, and each but the last takes a character.  So no two of them begin at the
same place, and a token is told by the place where it begins.
-/

namespace ServiceCatalog

namespace Position

/-- Whether a place is in front of another one. -/
def Before (p q : Position) : Prop := p.line < q.line ∨ p.line = q.line ∧ p.column < q.column

/-- Whether a place is not behind another one. -/
def UpTo (p q : Position) : Prop := p = q ∨ p.Before q

variable {p q r : Position}

theorem Before.irrefl (p : Position) : ¬ p.Before p := by
  unfold Before
  omega

theorem Before.trans (h : p.Before q) (h' : q.Before r) : p.Before r := by
  unfold Before at *
  omega

theorem UpTo.trans (h : p.UpTo q) (h' : q.UpTo r) : p.UpTo r := by
  rcases h with rfl | h
  · exact h'
  · rcases h' with rfl | h'
    · exact .inr h
    · exact .inr (h.trans h')

theorem Before.trans_upTo (h : p.Before q) (h' : q.UpTo r) : p.Before r := by
  rcases h' with rfl | h'
  · exact h
  · exact h.trans h'

theorem before_step (p : Position) (c : Char) : p.Before (p.step c) := by
  have hsize := c.utf8Size_pos
  unfold step
  split
  · exact .inl (Nat.lt_succ_self _)
  · exact .inr ⟨rfl, Nat.lt_add_of_pos_right hsize⟩

/-- A run of characters leads to no earlier place. -/
theorem upTo_after (p : Position) (cs : List Char) : p.UpTo (p.after cs) := by
  induction cs generalizing p with
  | nil => exact .inl rfl
  | cons c cs ih => exact .inr ((before_step p c).trans_upTo (ih (p.step c)))

theorem before_after (p : Position) (c : Char) (cs : List Char) : p.Before (p.after (c :: cs)) :=
  (before_step p c).trans_upTo (upTo_after (p.step c) cs)

end Position

/-- The place where a span begins. -/
def Span.start (s : Span) : Position := ⟨s.line, s.column⟩

/-- The place where a lexeme begins. -/
def Lexeme.start (x : Lexeme) : Position := x.asToken.span.start

theorem Lexeme.start_ofRecognized (p : Position) (newlineBefore : Bool) (cs : List Char)
    (kind : Except LexFault TokenKind) : (Lexeme.ofRecognized p newlineBefore cs kind).start = p := by
  cases kind <;> rfl

/-- The lexemes of a text begin one behind the other, and none in front of the text. -/
theorem lexemesFrom_ordered (p : Position) (cs : List Char) :
    (∀ x ∈ lexemesFrom p cs, p.UpTo x.start) ∧ (lexemesFrom p cs).Pairwise fun x y => x.start.Before y.start := by
  fun_induction lexemesFrom p cs with
  | case1 p cs between => exact ⟨List.forall_mem_singleton.mpr (p.upTo_after between), List.pairwise_singleton ..⟩
  | case2 p cs between p' c rest =>
    have hfirst : p.UpTo p' := p.upTo_after between
    have hlast : p'.Before (p'.after (c :: rest)) := p'.before_after c rest
    simp only [List.forall_mem_cons, List.pairwise_cons]
    exact ⟨⟨hfirst, hfirst.trans (.inr hlast), nofun⟩, ⟨hlast, nofun⟩, nofun, .nil⟩
  | case3 p cs between p' c rest hrest hclosed found =>
    rename_i taken ih
    obtain ⟨hbehind, hordered⟩ := ih
    have hfirst : p.UpTo p' := p.upTo_after between
    have hlast : p'.Before (p'.after taken) := p'.before_after c _
    rw [List.forall_mem_cons, List.pairwise_cons, Lexeme.start_ofRecognized]
    refine ⟨⟨hfirst, fun x hx => ?_⟩, fun x hx => hlast.trans_upTo (hbehind x hx), hordered⟩
    exact hfirst.trans (.inr (hlast.trans_upTo (hbehind x hx)))

/-- The tokens of a source text begin one behind the other. -/
theorem tokens_ordered (source : String) :
    ((lexemes source).filterMap Lexeme.token?).Pairwise fun t u => t.span.start.Before u.span.start := by
  have hkept : ∀ (x : Lexeme) t, x.token? = some t → x.start = t.span.start := by
    intro x t h
    cases x with
    | token u =>
      obtain rfl := Option.some.inj h
      rfl
    | invalid => exact absurd h nofun
  refine List.Pairwise.filterMap Lexeme.token? ?_ (lexemesFrom_ordered _ _).2
  intro x y hxy t ht u hu
  rw [← hkept x t ht, ← hkept y u hu]
  exact hxy

end ServiceCatalog
