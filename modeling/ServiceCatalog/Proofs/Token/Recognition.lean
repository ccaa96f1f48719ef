import Mathlib.Data.List.TakeWhile
import ServiceCatalog.Token.Lexeme

/-!
# What is recognized

Facts about a single lexeme: it is never the end of the file, and the text that a token keeps is that of its
characters, without the backticks of a quoted identifier.  Every other token of a text was recognized at some place.
-/

namespace ServiceCatalog

/-- The kinds of words. -/
def TokenKind.words : List TokenKind :=
  [identifier, «package», «import», as, «class», interface, object, typealias, «fun», val, var]

/-- The kinds of marks and operators. -/
def TokenKind.marks : List TokenKind :=
  [leftParen, rightParen, leftBracket, rightBracket, leftBrace, rightBrace, comma, dot, colon, colonColon, semicolon,
    question, «at», less, greater, arrow, star, equal, operator]

theorem ofWord_mem_words (word : String) : TokenKind.ofWord word ∈ TokenKind.words := by
  unfold TokenKind.ofWord
  split <;> decide

/-- A word is of no other kind. -/
theorem ofWord_ne {kind : TokenKind} (h : kind ∉ TokenKind.words) (word : String) : TokenKind.ofWord word ≠ kind := by
  rintro rfl
  exact h (ofWord_mem_words word)

/-- A mark is of no other kind. -/
theorem recognizeMark_ne {kind : TokenKind} (h : kind ∉ TokenKind.marks) (c : Char) (cs : List Char) :
    (recognizeMark c cs).kind ≠ .ok kind := by
  intro hkind
  unfold recognizeMark at hkind
  dsimp only at hkind
  split at hkind <;> (try split at hkind) <;> simp at hkind <;> subst hkind <;> exact h (by decide)

/-- What is recognized in a text is never its end. -/
theorem recognize_ne_eof (c : Char) (cs : List Char) : (recognize c cs).kind ≠ .ok .eof := by
  have hliteral : ∀ opening e kind, kind ≠ .eof → (recognizeLiteral opening e kind cs).kind ≠ .ok .eof := by
    intro opening e kind hkind
    unfold recognizeLiteral
    dsimp only
    split
    · exact fun h => hkind (Except.ok.inj h)
    · nofun
  unfold recognize
  dsimp only
  split
  · split <;> exact hliteral _ _ _ nofun
  · split
    · exact hliteral _ _ _ nofun
    · split
      · split <;> nofun
      · split
        · nofun
        · split
          · exact fun h => ofWord_ne (by decide) _ (Except.ok.inj h)
          · exact recognizeMark_ne (by decide) c cs

/-! ## What goes on with which characters -/

/-- What holds of digits, letters, signs and dots holds of what a number goes on with. -/
theorem forall_mem_number {p : Char → Prop} (hpart : ∀ c, isNumberPart c = true → p c)
    (hsigns : ∀ c ∈ ['+', '-', '.'], p c) (hexadecimal : Bool) (cs : List Char) :
    ∀ d ∈ cs.take (numberLength hexadecimal cs), p d := by
  have hdigits : ∀ cs : List Char, ∀ d ∈ cs.take (cs.takeWhile isNumberPart).length, p d := fun cs d hd => by
    rw [← List.prefix_iff_eq_take.mp (List.takeWhile_prefix _)] at hd
    exact hpart d (List.mem_takeWhile_imp hd)
  fun_induction numberLength hexadecimal cs with
  | case1 cs => exact hdigits cs
  | case2 cs digits c rest hrest signed fraction hmore ih =>
    have hsplit : cs = digits ++ c :: rest := by
      rw [← hrest]
      exact (List.prefix_iff_eq_append.mp (List.takeWhile_prefix _)).symm
    have hc : c ∈ ['+', '-', '.'] := by
      simp only [signed, fraction, Bool.or_eq_true, Bool.and_eq_true, decide_eq_true_eq] at hmore
      rcases hmore with ⟨-, rfl | rfl⟩ | ⟨rfl, -⟩ <;> decide
    have htaken : cs.take (digits.length + 1 + numberLength hexadecimal rest) =
        digits ++ c :: rest.take (numberLength hexadecimal rest) := by
      refine (congrArg (List.take _) hsplit).trans ?_
      rw [Nat.add_assoc, List.take_length_add_append, Nat.add_comm 1, List.take_succ_cons]
    rw [htaken]
    intro d hd
    rcases List.mem_append.mp hd with hd | hd
    · exact hpart d (List.mem_takeWhile_imp hd)
    · rcases List.mem_cons.mp hd with rfl | hd
      · exact hsigns d hc
      · exact ih d hd
  | case3 cs => exact hdigits cs

/-- What holds of the parts of operators and of the second characters of marks holds of what a mark goes on with. -/
theorem forall_mem_mark {p : Char → Prop} (hpart : ∀ c, isOperatorPart c = true → p c)
    (hnext : ∀ c ∈ [':', '.', '<', '>', '='], p c) (c : Char) (cs : List Char) :
    ∀ d ∈ cs.take (recognizeMark c cs).length, p d := by
  have hrun : ∀ q : Char → Bool, (∀ c, q c = true → p c) → ∀ d ∈ cs.take (cs.takeWhile q).length, p d := by
    intro q hq d hd
    rw [← List.prefix_iff_eq_take.mp (List.takeWhile_prefix _)] at hd
    exact hq d (List.mem_takeWhile_imp hd)
  have hequal : ∀ c, decide (c = '=') = true → p c := fun c hc => of_decide_eq_true hc ▸ hnext '=' (by decide)
  have hhead : ∀ next, cs.head? = some next → next ∈ [':', '.', '<', '>', '='] → ∀ d ∈ cs.take 1, p d := by
    intro next hhead hmem d hd
    obtain ⟨rest, rfl⟩ := List.head?_eq_some_iff.mp hhead
    obtain rfl : d = next := by simpa using hd
    exact hnext d hmem
  unfold recognizeMark
  dsimp only
  split <;> (try split)
  all_goals first
    | exact fun d hd => absurd hd List.not_mem_nil
    | exact hrun _ hpart
    | exact hrun _ hequal
    | exact hhead _ ‹_› (by decide)
    | skip
  · next hdot =>
    -- a range operator may be followed by the mark that leaves out its end
    obtain ⟨rest, rfl⟩ := List.head?_eq_some_iff.mp hdot
    dsimp only
    split
    · next hless =>
      obtain ⟨rest, rfl⟩ := List.head?_eq_some_iff.mp hless
      intro d hd
      refine hnext d ?_
      have hcases : d = '.' ∨ d = '<' := by simpa using hd
      rcases hcases with rfl | rfl <;> decide
    · exact hhead '.' rfl (by decide)

/-- A quoted identifier keeps what stands between its backticks. -/
theorem recognize_quoted {cs : List Char} {kind : TokenKind} (h : (recognize '`' cs).kind = .ok kind) :
    kind = .identifier ∧ '`' :: cs.take (recognize '`' cs).length =
      '`' :: (Lexeme.keptText ('`' :: cs.take (recognize '`' cs).length) ++ ['`']) := by
  have hquoted : recognize '`' cs =
      let name := cs.takeWhile fun d => d ≠ '`' && d ≠ '\n'
      if (cs.drop name.length).head? = some '`' then ⟨name.length + 1, .ok .identifier⟩
      else ⟨name.length, .error .unterminatedIdentifier⟩ := by
    rw [recognize, if_neg (by decide), if_neg (by decide), if_pos rfl]
  rw [hquoted] at h ⊢
  obtain ⟨name, hname⟩ : ∃ name, cs.takeWhile (fun d => d ≠ '`' && d ≠ '\n') = name := ⟨_, rfl⟩
  have hprefix := List.prefix_iff_eq_append.mp (hname ▸ List.takeWhile_prefix _)
  simp only [hname] at h ⊢
  split at h
  · next hclosed =>
    obtain ⟨rest, hrest⟩ := List.head?_eq_some_iff.mp hclosed
    rw [hrest] at hprefix
    have htake : cs.take (name.length + 1) = name ++ ['`'] := by
      rw [← hprefix, List.take_length_add_append]
      rfl
    rw [if_pos hclosed, htake]
    exact ⟨(Except.ok.inj h).symm, by simp [Lexeme.keptText]⟩
  · exact absurd h nofun

theorem token_mem_of_mem_filterMap {ls : List Lexeme} {t : Token} (h : t ∈ ls.filterMap Lexeme.token?) : .token t ∈ ls := by
  obtain ⟨x, hx, htoken⟩ := List.mem_filterMap.mp h
  cases x with
  | token => exact Option.some.inj htoken ▸ hx
  | invalid => contradiction

/-- A token of a text is its end, or what is recognized at some place of it. -/
theorem exists_recognized_of_mem {p : Position} {cs : List Char} {t : Token} (h : .token t ∈ lexemesFrom p cs) :
    t.kind = .eof ∨ ∃ c rest, (recognize c rest).kind = .ok t.kind ∧
      t.lexeme = String.ofList (Lexeme.keptText (c :: rest.take (recognize c rest).length)) := by
  fun_induction lexemesFrom p cs with
  | case1 =>
    obtain rfl := Lexeme.token.inj (List.mem_singleton.mp h)
    exact .inl rfl
  | case2 =>
    rcases List.mem_cons.mp h with h | h
    · exact absurd h nofun
    · obtain rfl := Lexeme.token.inj (List.mem_singleton.mp h)
      exact .inl rfl
  | case3 p cs between p' c rest hrest hclosed found =>
    rename_i taken ih
    rcases List.mem_cons.mp h with h | h
    · refine .inr ⟨c, rest, ?_⟩
      cases hkind : found.kind with
      | error fault =>
        rw [hkind] at h
        exact absurd h nofun
      | ok kind =>
        rw [hkind] at h
        obtain rfl := Lexeme.token.inj h
        exact ⟨rfl, rfl⟩
    · exact ih h

/-- Any other token keeps all its characters. -/
theorem keptText_of_ne {c : Char} (h : c ≠ '`') (cs : List Char) : Lexeme.keptText (c :: cs) = c :: cs := by
  unfold Lexeme.keptText
  split
  · next heq => exact absurd (List.cons.inj heq).1 h
  · rfl

/-- A keyword of a text keeps the characters that make it one. -/
theorem ofWord_keptText {c : Char} {cs : List Char} {kind : TokenKind} (hword : kind ∈ TokenKind.words)
    (hkeyword : kind ≠ .identifier) (h : (recognize c cs).kind = .ok kind) :
    TokenKind.ofWord (String.ofList (Lexeme.keptText (c :: cs.take (recognize c cs).length))) = kind := by
  have hliteral : ∀ {opening : Nat} {e : Enclosure} {found : TokenKind}, found ∉ TokenKind.words →
      (recognizeLiteral opening e found cs).kind ≠ .ok kind := by
    intro opening e found hfound hkind
    unfold recognizeLiteral at hkind
    dsimp only at hkind
    split at hkind
    · exact hfound (Except.ok.inj hkind ▸ hword)
    · contradiction
  unfold recognize at h ⊢
  dsimp only at h ⊢
  split at h
  · split at h <;> exact absurd h (hliteral (by decide))
  · split at h
    · exact absurd h (hliteral (by decide))
    · split at h
      · split at h
        · exact absurd (Except.ok.inj h).symm hkeyword
        · contradiction
      · split at h
        · rw [← Except.ok.inj h] at hword
          exact absurd hword (by decide)
        · split at h
          · next hquote hquote' hbacktick hdigit hletter =>
            rw [if_neg hquote, if_neg hquote', if_neg hbacktick, if_neg hdigit, if_pos hletter, keptText_of_ne hbacktick,
              ← List.prefix_iff_eq_take.mp (List.takeWhile_prefix _)]
            exact Except.ok.inj h
          · refine absurd h (recognizeMark_ne ?_ c cs)
            have hall : ∀ k ∈ TokenKind.words, k ∉ TokenKind.marks := by decide
            exact hall _ hword

/-- A keyword among the tokens of a text is spelled as its kind says. -/
theorem ofWord_lexeme {p : Position} {cs : List Char} {t : Token} (h : .token t ∈ lexemesFrom p cs)
    (hword : t.kind ∈ TokenKind.words) (hkeyword : t.kind ≠ .identifier) : TokenKind.ofWord t.lexeme = t.kind := by
  rcases exists_recognized_of_mem h with heof | ⟨c, rest, hkind, hlexeme⟩
  · rw [heof] at hword
    exact absurd hword (by decide)
  · rw [hlexeme]
    exact ofWord_keptText hword hkeyword hkind

end ServiceCatalog
