import ServiceCatalog.Proofs.Token.Lossless
import ServiceCatalog.Proofs.Token.Order
import ServiceCatalog.Proofs.Token.Spelling

/-!
# Tokens in front of another text

A token is recognized by its characters and at most two characters behind them, and no token goes on with a blank.  So
tokens stay what they are where the text behind them is exchanged for one that begins alike, or with a blank.

* `LooksAlike`: the texts that may be exchanged.  `recognize_of_looksAlike` says so of a single token.
* `Renders`: a text from a place on and the tokens that it is read as, in front of another text.  It is put together
  piece by piece (`Renders.append`, `Renders.split`), and it says what the lexemes of a text are
  (`exists_renders`, `Renders.lexemesFrom_eq`).
* `Renders.exchange`, `Renders.move`: the same text in front of another one, and at another place.
-/

namespace ServiceCatalog

/-! ## Texts that begin alike -/

/-- Whether a text begins like another one as far as a token in front of it is concerned: with the same two characters,
or with the same ones and then a blank. -/
def LooksAlike (cs ds : List Char) : Prop :=
  ∃ front cs' ds', cs = front ++ cs' ∧ ds = front ++ ds' ∧ (2 ≤ front.length ∨ ds'.head?.any Text.isBlank = true)

section

variable {cs behind rest : List Char} {kind : TokenKind}

namespace LooksAlike

theorem append (front : List Char) (h : LooksAlike behind rest) : LooksAlike (front ++ behind) (front ++ rest) := by
  obtain ⟨same, behind, rest, rfl, rfl, hsame⟩ := h
  refine ⟨front ++ same, behind, rest, (List.append_assoc ..).symm, (List.append_assoc ..).symm, hsame.imp_left ?_⟩
  intro h
  rw [List.length_append]
  omega

theorem of_blank (h : rest.head?.any Text.isBlank = true) : LooksAlike behind rest :=
  ⟨[], behind, rest, rfl, rfl, .inr h⟩

/-- A text begins with two characters that are no blanks only if the other one does. -/
theorem isPrefix {ds : List Char} (h : LooksAlike behind rest) (hlength : ds.length ≤ 2)
    (hblank : ∀ c ∈ ds, Text.isBlank c = false) (hds : ds <+: rest) : ds <+: behind := by
  obtain ⟨same, behind, rest, rfl, rfl, hsame⟩ := h
  refine List.IsPrefix.trans ?_ (List.prefix_append ..)
  refine List.prefix_of_prefix_length_le hds (List.prefix_append ..) ?_
  by_contra hlonger
  obtain ⟨ds', rfl⟩ := List.prefix_of_prefix_length_le (List.prefix_append ..) hds (Nat.le_of_not_ge hlonger)
  have hrest := (List.prefix_append_right_inj same).mp hds
  cases ds' with
  | nil => simp at hlonger
  | cons c ds' =>
    obtain ⟨more, rfl⟩ := hrest
    rcases hsame with hlong | hfirst
    · rw [List.length_append, List.length_cons] at hlength
      omega
    · have hc := hblank c (List.mem_append_right _ List.mem_cons_self)
      rw [List.cons_append, List.head?_cons, Option.any_some, hc] at hfirst
      contradiction

theorem head? (h : LooksAlike behind rest) {c : Char} (hc : Text.isBlank c = false) (hrest : rest.head? = some c) :
    behind.head? = some c := by
  obtain ⟨more, rfl⟩ := List.head?_eq_some_iff.mp hrest
  obtain ⟨more', hmore⟩ := h.isPrefix (show [c].length ≤ 2 by simp) (by simpa using hc) ⟨more, rfl⟩
  rw [← hmore]
  rfl

/-- What no blank goes on with does not go on in a text that begins alike. -/
theorem not_head (h : LooksAlike behind rest) {p : Char → Bool} (hp : ∀ c, Text.isBlank c = true → p c = false)
    (hbehind : ∀ c ∈ behind.head?, p c = false) : ∀ c ∈ rest.head?, p c = false := by
  intro c hc
  cases hblank : Text.isBlank c with
  | true => exact hp c hblank
  | false => exact hbehind c (h.head? hblank hc)

end LooksAlike

/-! ## What a blank ends -/

theorem eq_false_of_isBlank {p : Char → Bool} (hpoints : ∀ n ∈ blankPoints, p (Char.ofNat n) = false) {c : Char}
    (hc : Text.isBlank c = true) : p c = false := by
  rw [← Char.ofNat_toNat c]
  exact hpoints c.toNat (toNat_mem_of_isBlank hc)

theorem not_isIdentifierPart_of_isBlank {c : Char} (h : Text.isBlank c = true) : isIdentifierPart c = false :=
  eq_false_of_isBlank (by decide +kernel) h

theorem not_isNumberPart_of_isBlank {c : Char} (h : Text.isBlank c = true) : isNumberPart c = false :=
  eq_false_of_isBlank (by decide) h

theorem not_isOperatorPart_of_isBlank {c : Char} (h : Text.isBlank c = true) : isOperatorPart c = false :=
  eq_false_of_isBlank (by decide) h

/-- A run of characters that ends with a piece of the text ends there in front of a text that begins alike. -/
theorem takeWhile_of_looksAlike {p : Char → Bool} (hp : ∀ c, Text.isBlank c = true → p c = false)
    (h : ((cs ++ behind).takeWhile p).length = cs.length) (halike : LooksAlike behind rest) :
    (cs ++ behind).takeWhile p = cs ∧ (cs ++ rest).takeWhile p = cs := by
  have hall : (cs ++ behind).takeWhile p = cs :=
    (List.prefix_of_prefix_length_le (List.takeWhile_prefix p) (List.prefix_append ..) (Nat.le_of_eq h)).eq_of_length h
  have hcs : ∀ c ∈ cs, p c = true := fun c hc => List.mem_takeWhile_imp (hall.symm ▸ hc)
  have hstops : ∀ {ds : List Char}, (∀ c ∈ ds.head?, p c = false) → (cs ++ ds).takeWhile p = cs := by
    intro ds hds
    rw [List.takeWhile_append_of_pos hcs]
    cases ds with
    | nil => exact List.append_nil cs
    | cons d ds => rw [List.takeWhile_cons_of_neg (by rw [hds d rfl]; nofun), List.append_nil]
  refine ⟨hall, hstops (halike.not_head hp fun c hc => ?_)⟩
  obtain ⟨ds, rfl⟩ := List.head?_eq_some_iff.mp hc
  rw [List.takeWhile_append_of_pos hcs] at h
  cases hpc : p c with
  | false => rfl
  | true =>
    rw [List.takeWhile_cons_of_pos hpc, List.length_append, List.length_cons] at h
    omega

/-! ## Marks -/

/-- A mark of one character or two. -/
theorem double_of_looksAlike {next : Char} {both one : Except LexFault TokenKind}
    (hnext : Text.isBlank next = false) (halike : LooksAlike behind rest)
    (h : (if (cs ++ behind).head? = some next then (⟨1, both⟩ : Recognized) else ⟨0, one⟩) = ⟨cs.length, .ok kind⟩) :
    (if (cs ++ rest).head? = some next then (⟨1, both⟩ : Recognized) else ⟨0, one⟩) = ⟨cs.length, .ok kind⟩ := by
  cases cs with
  | cons c cs => exact h
  | nil =>
    rw [List.nil_append] at h ⊢
    split at h
    · exact absurd (congrArg Recognized.length h) Nat.one_ne_zero
    · next hne =>
      rw [if_neg fun hrest => hne (halike.head? hnext hrest)]
      exact h

/-- An operator that goes on as long as a run of characters. -/
theorem run_of_looksAlike {p : Char → Bool} (hp : ∀ c, Text.isBlank c = true → p c = false)
    {found : Except LexFault TokenKind} (halike : LooksAlike behind rest)
    (h : (⟨((cs ++ behind).takeWhile p).length, found⟩ : Recognized) = ⟨cs.length, .ok kind⟩) :
    (⟨((cs ++ rest).takeWhile p).length, found⟩ : Recognized) = ⟨cs.length, .ok kind⟩ := by
  obtain ⟨hlength, rfl⟩ := Recognized.mk.inj h
  rw [(takeWhile_of_looksAlike hp hlength halike).2]

theorem recognizeMark_of_looksAlike {c : Char} (halike : LooksAlike behind rest)
    (h : recognizeMark c (cs ++ behind) = ⟨cs.length, .ok kind⟩) :
    recognizeMark c (cs ++ rest) = ⟨cs.length, .ok kind⟩ := by
  have hoperator : ∀ {found : Except LexFault TokenKind},
      (⟨((cs ++ behind).takeWhile isOperatorPart).length, found⟩ : Recognized) = ⟨cs.length, .ok kind⟩ →
        (⟨((cs ++ rest).takeWhile isOperatorPart).length, found⟩ : Recognized) = ⟨cs.length, .ok kind⟩ :=
    run_of_looksAlike (fun _ => not_isOperatorPart_of_isBlank) halike
  have hdouble : ∀ {next : Char} {both one : Except LexFault TokenKind}, Text.isBlank next = false →
      (if (cs ++ behind).head? = some next then (⟨1, both⟩ : Recognized) else ⟨0, one⟩) = ⟨cs.length, .ok kind⟩ →
        (if (cs ++ rest).head? = some next then (⟨1, both⟩ : Recognized) else ⟨0, one⟩) = ⟨cs.length, .ok kind⟩ :=
    fun hnext => double_of_looksAlike hnext halike
  have hequals : ∀ d, Text.isBlank d = true → decide (d = '=') = false :=
    fun _ => eq_false_of_isBlank (p := (· = '=')) (by decide)
  unfold recognizeMark at h ⊢
  dsimp only at h ⊢
  split at h
  case h_11 =>
    -- a dot, two dots, or two dots and an angle bracket
    rcases cs with _ | ⟨d, _ | ⟨e, cs⟩⟩
    · have hne : behind.head? ≠ some '.' := fun hdot => by
        rw [List.nil_append, if_pos hdot] at h
        have hlength : (if (behind.drop 1).head? = some '<' then 2 else 1) = 0 := congrArg Recognized.length h
        split at hlength <;> omega
      rw [List.nil_append, if_neg hne] at h
      rw [List.nil_append, if_neg fun hdot => hne (halike.head? (by decide) hdot)]
      exact h
    · rw [List.cons_append, List.head?_cons] at h ⊢
      split at h
      · next hdot =>
        have hne : behind.head? ≠ some '<' := fun hangle => by
          rw [List.drop_succ_cons, List.nil_append, List.drop_zero, if_pos hangle] at h
          exact absurd (congrArg Recognized.length h) (show 2 ≠ 1 by decide)
        have hne' : rest.head? ≠ some '<' := fun hangle => hne (halike.head? (by decide) hangle)
        rw [List.drop_succ_cons, List.nil_append, List.drop_zero, if_neg hne] at h
        rw [if_pos hdot, List.drop_succ_cons, List.nil_append, List.drop_zero, if_neg hne']
        exact h
      · next hdot =>
        rw [if_neg hdot]
        exact h
    · exact h
  case h_13 =>
    -- an arrow, or an operator
    cases cs with
    | nil =>
      have hne : behind.head? ≠ some '>' := fun hangle => by
        rw [List.nil_append, if_pos hangle] at h
        exact absurd (congrArg Recognized.length h) Nat.one_ne_zero
      rw [List.nil_append, if_neg hne] at h
      rw [List.nil_append, if_neg fun hangle => hne (halike.head? (by decide) hangle)]
      exact hoperator h
    | cons d cs =>
      rw [List.cons_append, List.head?_cons] at h ⊢
      split at h
      · next hangle =>
        rw [if_pos hangle]
        exact h
      · next hangle =>
        rw [if_neg hangle]
        exact hoperator h
  case h_17 =>
    -- a single mark, or an operator
    cases cs with
    | nil =>
      have hne : behind.head? ≠ some '=' := fun hequal => by
        obtain ⟨more, rfl⟩ := List.head?_eq_some_iff.mp hequal
        exact absurd (congrArg Recognized.length h) (Nat.succ_ne_zero _)
      rw [List.nil_append, if_neg hne] at h
      rw [List.nil_append, if_neg fun hequal => hne (halike.head? (by decide) hequal)]
      exact h
    | cons d cs =>
      rw [List.cons_append, List.head?_cons] at h ⊢
      split at h
      · next hequal =>
        rw [if_pos hequal]
        rw [← List.cons_append] at h ⊢
        exact run_of_looksAlike (p := (· = '=')) hequals halike h
      · next hequal =>
        rw [if_neg hequal]
        exact h
  case h_10 | h_12 | h_14 | h_15 | h_16 => exact hdouble (by decide) h
  case h_24 => exact h
  case h_18 | h_19 | h_20 | h_21 | h_22 | h_23 => exact hoperator h
  all_goals exact h

/-! ## Numbers -/

/-- Whether a number goes on behind a run of its characters, with a sign or a fraction. -/
def numberGoesOn (hexadecimal : Bool) (digits : List Char) (c : Char) (cs : List Char) : Bool :=
  !hexadecimal && endsInExponent digits && (c = '+' || c = '-') || c = '.' && cs.head?.any Char.isDigit

section

variable {hexadecimal : Bool} {c : Char}

theorem numberLength_of_all (h : cs.takeWhile isNumberPart = cs) : numberLength hexadecimal cs = cs.length := by
  rw [numberLength]
  dsimp only
  rw [h]
  split
  · rfl
  · next hdrop =>
    rw [List.drop_length] at hdrop
    contradiction

/-- The rest of a number behind a run of its characters. -/
theorem numberLength_append {digits : List Char} (h : (digits ++ c :: cs).takeWhile isNumberPart = digits) :
    numberLength hexadecimal (digits ++ c :: cs) = if numberGoesOn hexadecimal digits c cs then
      digits.length + 1 + numberLength hexadecimal cs else digits.length := by
  rw [numberLength]
  dsimp only
  rw [h]
  split
  · next hdrop =>
    rw [List.drop_left] at hdrop
    contradiction
  · next hdrop =>
    rw [List.drop_left] at hdrop
    obtain ⟨rfl, rfl⟩ := List.cons.inj hdrop
    rfl

theorem length_takeWhile_le_numberLength (cs : List Char) :
    (cs.takeWhile isNumberPart).length ≤ numberLength hexadecimal cs := by
  rw [numberLength]
  dsimp only
  split
  · exact Nat.le_refl _
  · split <;> omega

theorem numberLength_le (cs : List Char) : numberLength hexadecimal cs ≤ cs.length := by
  induction hn : cs.length using Nat.strong_induction_on generalizing cs with | _ n ih => ?_
  subst hn
  have hprefix := (List.takeWhile_prefix (l := cs) isNumberPart).length_le
  rw [numberLength]
  dsimp only
  split
  · exact hprefix
  · next c rest hdrop =>
    have hlength := congrArg List.length hdrop
    rw [List.length_drop, List.length_cons] at hlength
    have hrest := ih rest.length (by omega) rest rfl
    split <;> omega

theorem numberLength_pos (hc : isNumberPart c = true) : 0 < numberLength hexadecimal (c :: cs) := by
  refine Nat.lt_of_lt_of_le ?_ (length_takeWhile_le_numberLength _)
  rw [List.takeWhile_cons_of_pos hc]
  exact Nat.succ_pos _

/-- A number goes on in a text only if it goes on in one that begins alike. -/
theorem numberGoesOn_of_looksAlike {digits es : List Char} {e : Char} (halike : LooksAlike behind (e :: es))
    (h : numberGoesOn hexadecimal digits e es = true) :
    ∃ ds, behind = e :: ds ∧ numberGoesOn hexadecimal digits e ds = true := by
  rw [numberGoesOn, Bool.or_eq_true, Bool.and_eq_true (decide (e = '.'))] at h
  rcases h with hsigned | ⟨hdot, hdigit⟩
  · have hblank : Text.isBlank e = false := by
      rw [Bool.and_eq_true] at hsigned
      have hsign : e = '+' ∨ e = '-' := by simpa using hsigned.2
      rcases hsign with rfl | rfl <;> decide
    obtain ⟨ds, rfl⟩ := List.head?_eq_some_iff.mp (halike.head? hblank rfl)
    exact ⟨ds, rfl, by rw [numberGoesOn, hsigned, Bool.true_or]⟩
  · obtain rfl : e = '.' := by simpa using hdot
    cases es with
    | nil => contradiction
    | cons f es =>
      have hblank : Text.isBlank f = false := by
        cases hf : Text.isBlank f with
        | false => rfl
        | true =>
          have hnot : f.isDigit = false := eq_false_of_isBlank (by decide) hf
          rw [List.head?_cons, Option.any_some, hnot] at hdigit
          contradiction
      have hblanks : ∀ c ∈ ['.', f], Text.isBlank c = false := by
        rw [List.forall_mem_cons, List.forall_mem_singleton]
        exact ⟨by decide, hblank⟩
      obtain ⟨more, rfl⟩ := halike.isPrefix (Nat.le_refl _) hblanks ⟨es, rfl⟩
      exact ⟨f :: more, rfl, by rw [numberGoesOn, Bool.or_eq_true]; exact .inr hdigit⟩

end

/-- The rest of a number is the same in front of a text that begins alike. -/
theorem numberLength_of_looksAlike {hexadecimal : Bool} (halike : LooksAlike behind rest)
    (h : numberLength hexadecimal (cs ++ behind) = cs.length) :
    numberLength hexadecimal (cs ++ rest) = cs.length := by
  induction hn : cs.length using Nat.strong_induction_on generalizing cs with | _ n ih => ?_
  subst hn
  have hlength : ((cs ++ behind).takeWhile isNumberPart).length ≤ numberLength hexadecimal (cs ++ behind) :=
    length_takeWhile_le_numberLength _
  rw [h] at hlength
  obtain ⟨others, hothers⟩ : (cs ++ behind).takeWhile isNumberPart <+: cs :=
    List.prefix_of_prefix_length_le (List.takeWhile_prefix _) (List.prefix_append ..) hlength
  cases others with
  | nil =>
    -- the number ends with a run of its characters
    rw [List.append_nil] at hothers
    obtain ⟨hall, hall'⟩ := takeWhile_of_looksAlike (fun _ => not_isNumberPart_of_isBlank)
      (congrArg List.length hothers) halike
    cases rest with
    | nil =>
      rw [List.append_nil] at hall' ⊢
      exact numberLength_of_all hall'
    | cons e es =>
      rw [numberLength_append hall', if_neg]
      intro hgoes
      obtain ⟨ds, rfl, hgoes'⟩ := numberGoesOn_of_looksAlike halike hgoes
      rw [numberLength_append hall, if_pos hgoes'] at h
      omega
  | cons d others =>
    -- the number goes on, and a shorter one is left
    obtain ⟨digits, hdigits⟩ : ∃ digits, (cs ++ behind).takeWhile isNumberPart = digits := ⟨_, rfl⟩
    rw [hdigits] at hothers
    subst hothers
    have hrun : ∀ c ∈ digits, isNumberPart c = true := fun c hc => List.mem_takeWhile_imp (hdigits.symm ▸ hc)
    rw [List.append_assoc, List.cons_append] at hdigits h ⊢
    have hd : isNumberPart d = false := by
      rw [List.takeWhile_append_of_pos hrun] at hdigits
      cases hd : isNumberPart d with
      | false => rfl
      | true =>
        rw [List.takeWhile_cons_of_pos hd] at hdigits
        simp at hdigits
    have hdigits' : (digits ++ d :: (others ++ rest)).takeWhile isNumberPart = digits := by
      rw [List.takeWhile_append_of_pos hrun, List.takeWhile_cons_of_neg (by rw [hd]; nofun), List.append_nil]
    rw [numberLength_append hdigits, List.length_append, List.length_cons] at h
    split at h
    · next hgoes =>
      have hothers : numberLength hexadecimal (others ++ behind) = others.length := by omega
      have hgoes' : numberGoesOn hexadecimal digits d (others ++ rest) = true := by
        cases others with
        | cons e others => exact hgoes
        | nil =>
          rw [numberGoesOn, Bool.or_eq_true] at hgoes ⊢
          refine .inl (hgoes.resolve_right fun hfraction => ?_)
          rw [Bool.and_eq_true] at hfraction
          rw [List.nil_append] at hothers hfraction
          cases behind with
          | nil => exact absurd hfraction.2 nofun
          | cons f behind =>
            have hf : isNumberPart f = true := by
              have hdigit : f.isDigit = true := hfraction.2
              simp [isNumberPart, Char.isAlphanum, hdigit]
            exact absurd hothers (Nat.ne_of_gt (numberLength_pos hf))
      have hless : others.length < (digits ++ d :: others).length := by
        rw [List.length_append, List.length_cons]
        omega
      rw [numberLength_append hdigits', if_pos hgoes', ih others.length hless hothers rfl, List.length_append,
        List.length_cons]
      omega
    · omega

/-- Whether a number is hexadecimal is the same in front of a text that begins alike. -/
theorem radixMark_of_looksAlike {hexadecimal : Bool} (halike : LooksAlike behind rest)
    (h : numberLength hexadecimal (cs ++ behind) = cs.length) :
    ((cs ++ rest).head? = some 'x' || (cs ++ rest).head? = some 'X' : Bool) =
      ((cs ++ behind).head? = some 'x' || (cs ++ behind).head? = some 'X' : Bool) := by
  cases cs with
  | cons d cs => rfl
  | nil =>
    have hne : ∀ d, isNumberPart d = true → behind.head? ≠ some d := by
      rintro d hd hbehind
      obtain ⟨ds, rfl⟩ := List.head?_eq_some_iff.mp hbehind
      exact absurd h (Nat.ne_of_gt (numberLength_pos hd))
    have hne' : ∀ d, isNumberPart d = true → Text.isBlank d = false → rest.head? ≠ some d :=
      fun d hd hblank hrest => hne d hd (halike.head? hblank hrest)
    simp [hne 'x' (by decide), hne 'X' (by decide), hne' 'x' (by decide) (by decide),
      hne' 'X' (by decide) (by decide)]

/-! ## Literals, quoted identifiers and words -/

/-- A literal that is recognized is closed. -/
theorem skip_of_recognizeLiteral {opening : Nat} {e : Enclosure} {found : TokenKind}
    (h : recognizeLiteral opening e found (cs ++ behind) = ⟨cs.length, .ok kind⟩) : opening ≤ cs.length ∧ found = kind ∧
      Enclosure.skip [e] (cs.drop opening ++ behind) = ⟨true, (cs.drop opening).length⟩ := by
  unfold recognizeLiteral at h
  dsimp only at h
  obtain ⟨hlength, hkind⟩ := Recognized.mk.inj h
  have hle : opening ≤ cs.length := by omega
  rw [List.drop_append_of_le_length hle] at hlength hkind
  have hclosed : (Enclosure.skip [e] (cs.drop opening ++ behind)).closed = true := by
    by_contra hnot
    rw [if_neg hnot] at hkind
    contradiction
  rw [if_pos hclosed] at hkind
  refine ⟨hle, Except.ok.inj hkind, ?_⟩
  rw [Enclosure.Reach.mk.injEq, List.length_drop]
  exact ⟨hclosed, by omega⟩

theorem recognizeLiteral_of_looksAlike {opening : Nat} {e : Enclosure} {found : TokenKind}
    (halike : LooksAlike behind rest) (h : recognizeLiteral opening e found (cs ++ behind) = ⟨cs.length, .ok kind⟩) :
    recognizeLiteral opening e found (cs ++ rest) = ⟨cs.length, .ok kind⟩ := by
  obtain ⟨hle, rfl, hreach⟩ := skip_of_recognizeLiteral h
  unfold recognizeLiteral
  dsimp only
  rw [List.drop_append_of_le_length hle, Enclosure.skip_exchange hreach fun hquote _ => halike.head? (by decide) hquote,
    Recognized.mk.injEq, List.length_drop]
  exact ⟨Nat.add_sub_cancel' hle, rfl⟩

/-- What is recognized as a token is the same token in front of a text that begins like the one behind it. -/
theorem recognize_of_looksAlike {c : Char} (halike : LooksAlike behind rest)
    (h : recognize c (cs ++ behind) = ⟨cs.length, .ok kind⟩) : recognize c (cs ++ rest) = ⟨cs.length, .ok kind⟩ := by
  unfold recognize at h ⊢
  dsimp only at h ⊢
  by_cases hquote : c = '"'
  · rw [if_pos hquote] at h ⊢
    split at h
    · next hmarks =>
      -- the marks that open the literal are part of it
      have hle : 2 ≤ cs.length := Nat.le.intro (congrArg Recognized.length h)
      rw [List.take_append_of_le_length hle] at hmarks
      rw [if_pos (by rw [List.take_append_of_le_length hle, hmarks])]
      exact recognizeLiteral_of_looksAlike halike h
    · next hmarks =>
      rw [if_neg fun hmarks' => hmarks ?_]
      · exact recognizeLiteral_of_looksAlike halike h
      · have hblank : Text.isBlank '"' = false := by decide
        have hmarks' := (halike.append cs).isPrefix (show ['"', '"'].length ≤ 2 from Nat.le_refl _)
          (List.forall_mem_cons.mpr ⟨hblank, List.forall_mem_singleton.mpr hblank⟩)
          (List.prefix_iff_eq_take.mpr hmarks'.symm)
        exact (List.prefix_iff_eq_take.mp hmarks').symm
  rw [if_neg hquote] at h ⊢
  by_cases hcharacter : c = '\''
  · rw [if_pos hcharacter] at h ⊢
    exact recognizeLiteral_of_looksAlike halike h
  rw [if_neg hcharacter] at h ⊢
  by_cases hquoted : c = '`'
  · rw [if_pos hquoted] at h ⊢
    split at h
    · next hclosed =>
      obtain ⟨name, hname⟩ : ∃ name, (cs ++ behind).takeWhile (fun d => d ≠ '`' && d ≠ '\n') = name := ⟨_, rfl⟩
      rw [hname] at h hclosed
      obtain ⟨hlength, hkind⟩ := Recognized.mk.inj h
      obtain ⟨last, rfl⟩ : name <+: cs := List.prefix_of_prefix_length_le (hname ▸ List.takeWhile_prefix _)
        (List.prefix_append ..) (by omega)
      rw [List.append_assoc, List.drop_left] at hclosed
      obtain ⟨d, rfl⟩ : ∃ d, last = [d] := List.length_eq_one_iff.mp (by rw [List.length_append] at hlength; omega)
      obtain rfl : d = '`' := Option.some.inj hclosed
      have hrun : ∀ d ∈ name, (d ≠ '`' && d ≠ '\n' : Bool) = true := by
        intro d hd
        rw [← hname] at hd
        exact List.mem_takeWhile_imp (p := fun d => d ≠ '`' && d ≠ '\n') hd
      have hname' : (name ++ ['`'] ++ rest).takeWhile (fun d => d ≠ '`' && d ≠ '\n') = name := by
        rw [List.append_assoc, List.takeWhile_append_of_pos hrun, List.singleton_append,
          List.takeWhile_cons_of_neg (by decide), List.append_nil]
      rw [hname', List.append_assoc, List.drop_left, List.singleton_append, List.head?_cons, if_pos rfl]
      exact h
    · exact absurd (congrArg Recognized.kind h) nofun
  rw [if_neg hquoted] at h ⊢
  by_cases hdigit : c.isDigit = true
  · rw [if_pos hdigit] at h ⊢
    obtain ⟨hlength, hkind⟩ := Recognized.mk.inj h
    rw [radixMark_of_looksAlike halike hlength, numberLength_of_looksAlike halike hlength, hkind]
  rw [if_neg hdigit] at h ⊢
  by_cases hword : isIdentifierStart c = true
  · rw [if_pos hword] at h ⊢
    obtain ⟨hlength, hkind⟩ := Recognized.mk.inj h
    obtain ⟨hall, hall'⟩ := takeWhile_of_looksAlike (fun _ => not_isIdentifierPart_of_isBlank) hlength halike
    rw [hall] at hkind
    rw [hall', hkind]
  rw [if_neg hword] at h ⊢
  exact recognizeMark_of_looksAlike halike h

end

/-! ## Where a token begins -/

section

variable {c : Char} {cs ds : List Char}

/-- A text begins with a token, and not with separators, if it begins with no blank and no comment. -/
theorem gap_eq_zero_iff : gap (c :: cs) = ⟨0, false⟩ ↔
    Text.isBlank c = false ∧ (c = '/' → cs.head? ≠ some '/' ∧ cs.head? ≠ some '*') := by
  constructor
  · intro h
    have hpos : ∀ (n : Nat) (g : Gap), g.beyond (n + 1) ≠ ⟨0, false⟩ := fun n g h => by
      have hlength : n + 1 + g.length = 0 := congrArg Gap.length h
      omega
    rw [gap] at h
    split at h
    · exact absurd h (hpos 0 _)
    · next hblank =>
      split at h
      · exact absurd h (hpos _ _)
      · next hline =>
        split at h
        · dsimp only at h
          split at h
          · exact absurd h (hpos _ _)
          · exact absurd (congrArg Gap.unclosed h) (by simp)
        · next hblock => exact ⟨by simpa using hblank, fun hc => ⟨by simpa [hc] using hline, by simpa [hc] using hblock⟩⟩
  · rintro ⟨hblank, hcomment⟩
    rw [gap, if_neg (by rw [hblank]; decide), if_neg, if_neg]
    · simpa using fun hc => (hcomment hc).2
    · simpa using fun hc => (hcomment hc).1

theorem gap_eq_zero_of_looksAlike (h : gap (c :: cs) = ⟨0, false⟩) (halike : LooksAlike cs ds) :
    gap (c :: ds) = ⟨0, false⟩ := by
  rw [gap_eq_zero_iff] at h ⊢
  refine ⟨h.1, fun hc => ?_⟩
  obtain ⟨hline, hblock⟩ := h.2 hc
  exact ⟨fun hd => hline (halike.head? (by decide) hd), fun hd => hblock (halike.head? (by decide) hd)⟩

/-- A text that begins with a token does not end a line. -/
theorem not_endsLine_of_gap (h : gap (c :: cs) = ⟨0, false⟩) : ¬ EndsLine (c :: cs) := by
  rintro (hnone | hnewline)
  · contradiction
  · obtain rfl := Option.some.inj hnewline
    have hblank := (gap_eq_zero_iff.mp h).1
    rw [Text.isBlank_newline] at hblank
    contradiction

/-- What is behind separators can be exchanged, as far as a token in front of them is concerned. -/
theorem AreSeparators.looksAlike {behind rest : List Char} (h : AreSeparators behind cs)
    (hrest : cs = [] → rest.head?.any Text.isBlank = true) : LooksAlike (cs ++ behind) (cs ++ rest) := by
  cases h with
  | nil => exact .of_blank (hrest rfl)
  | blank hc _ => exact .of_blank hc
  | line | block => exact ⟨_, behind, rest, rfl, rfl, .inl (by simp)⟩

end

/-! ## Rendered tokens -/

/-- Whether two tokens are of the same kind and have the same text. -/
structure Token.SameText (t t' : Token) : Prop where
  kind : t'.kind = t.kind
  lexeme : t'.lexeme = t.lexeme

/-- Whether two tokens are the same, apart from where they stand. -/
structure Token.Same (t t' : Token) : Prop where
  kind : t'.kind = t.kind
  lexeme : t'.lexeme = t.lexeme
  newlineBefore : t'.newlineBefore = t.newlineBefore

theorem Token.Same.sameText {t t' : Token} (h : t.Same t') : t.SameText t' := ⟨h.kind, h.lexeme⟩

/-- Whether a text from a place on is read as tokens, in front of another text. -/
inductive Renders (behind : List Char) : Position → List Char → List Token → Prop
  | nil {p : Position} : Renders behind p [] []
  | cons {p : Position} {between cs front : List Char} {c : Char} {kind : TokenKind} {ts : List Token}
      (hbetween : AreSeparators (c :: (cs ++ (front ++ behind))) between)
      (hbegins : gap (c :: (cs ++ (front ++ behind))) = ⟨0, false⟩)
      (hfound : recognize c (cs ++ (front ++ behind)) = ⟨cs.length, .ok kind⟩)
      (hmore : Renders behind ((p.after between).after (c :: cs)) front ts) :
      Renders behind p (between ++ c :: (cs ++ front)) (⟨kind, String.ofList (Lexeme.keptText (c :: cs)),
        (p.after between).spanOf (c :: cs), between.contains '\n'⟩ :: ts)

namespace Renders

variable {p : Position} {behind rest cs ds : List Char} {t : Token} {ts us : List Token}

/-- A rendered text in front of another one. -/
theorem append (h : Renders (ds ++ behind) p cs ts) (h' : Renders behind (p.after cs) ds us) :
    Renders behind p (cs ++ ds) (ts ++ us) := by
  induction h with
  | nil => exact h'
  | @cons p between cs front c kind ts hbetween hbegins hfound _ ih =>
    rw [← List.append_assoc front] at hbetween hbegins hfound
    have hplace : p.after (between ++ c :: (cs ++ front)) = ((p.after between).after (c :: cs)).after front := by
      rw [← List.cons_append, Position.after_append, Position.after_append]
    have hall := cons hbetween hbegins hfound (ih (hplace ▸ h'))
    rw [List.append_assoc, List.cons_append, List.append_assoc]
    exact hall

/-- The text of tokens and of further tokens. -/
theorem split (h : Renders behind p cs (ts ++ us)) : ∃ front back, cs = front ++ back ∧
    Renders (back ++ behind) p front ts ∧ Renders behind (p.after front) back us := by
  induction ts generalizing p cs with
  | nil => exact ⟨[], cs, rfl, .nil, h⟩
  | cons t ts ih =>
    cases h with
    | @cons _ between taken _ c kind _ hbetween hbegins hfound hmore =>
      obtain ⟨front, back, rfl, hfront, hback⟩ := ih hmore
      rw [List.append_assoc] at hbetween hbegins hfound
      refine ⟨between ++ c :: (taken ++ front), back, by simp, .cons hbetween hbegins hfound hfront, ?_⟩
      rwa [← List.cons_append, Position.after_append, Position.after_append]

/-- Tokens are what they are in front of any text that begins alike. -/
theorem exchange (h : Renders behind p cs ts) (halike : LooksAlike behind rest) : Renders rest p cs ts := by
  induction h with
  | nil => exact .nil
  | @cons p between cs front c kind ts hbetween hbegins hfound _ ih =>
    have hbegins' := gap_eq_zero_of_looksAlike hbegins ((halike.append front).append cs)
    refine .cons (hbetween.exchange fun hend => absurd hend (not_endsLine_of_gap hbegins)) hbegins' ?_ ih
    exact recognize_of_looksAlike (halike.append front) hfound

/-- Tokens are what they are at any place. -/
theorem move (h : Renders behind p cs ts) (p' : Position) :
    ∃ ts', Renders behind p' cs ts' ∧ List.Forall₂ Token.Same ts ts' := by
  induction h generalizing p' with
  | nil => exact ⟨[], .nil, .nil⟩
  | cons hbetween hbegins hfound _ ih =>
    obtain ⟨ts', hmore, hsame⟩ := ih _
    exact ⟨_, .cons hbetween hbegins hfound hmore, .cons ⟨rfl, rfl, rfl⟩ hsame⟩

/-- What a rendered token begins with: separators, behind which the token stands, and in front of which other separators
may stand as well. -/
theorem exists_between (h : Renders behind p cs (t :: ts)) : ∃ between taken, cs = between ++ taken ∧
    AreSeparators (taken ++ behind) between ∧ gap (taken ++ behind) = ⟨0, false⟩ ∧ t.span.start = p.after between ∧
      t.newlineBefore = between.contains '\n' ∧
      ∀ between' p', AreSeparators (taken ++ behind) between' → ∃ t' ts', Renders behind p' (between' ++ taken) (t' :: ts') ∧
        t'.kind = t.kind ∧ t'.lexeme = t.lexeme ∧ t'.newlineBefore = between'.contains '\n' ∧
        List.Forall₂ Token.Same ts ts' := by
  cases h with
  | @cons _ between cs front c kind _ hbetween hbegins hfound hmore =>
    have hall : c :: (cs ++ front) ++ behind = c :: (cs ++ (front ++ behind)) := by simp
    refine ⟨between, c :: (cs ++ front), rfl, by rwa [hall], by rwa [hall], rfl, rfl, fun between' p' hbetween' => ?_⟩
    rw [hall] at hbetween'
    obtain ⟨ts', hmore', hsame⟩ := hmore.move ((p'.after between').after (c :: cs))
    exact ⟨_, ts', .cons hbetween' hbegins hfound hmore', rfl, rfl, rfl, hsame⟩

/-- A rendered text is read as its tokens. -/
theorem lexemesFrom_eq (h : Renders behind p cs ts) :
    lexemesFrom p (cs ++ behind) = ts.map .token ++ lexemesFrom (p.after cs) behind := by
  induction h with
  | nil => rfl
  | @cons p between cs front c kind ts hbetween hbegins hfound _ ih =>
    have hgap : gap (between ++ c :: (cs ++ (front ++ behind))) = ⟨between.length, false⟩ := by
      rw [hbetween.gap_append, hbegins]
      rfl
    have hall : between ++ c :: (cs ++ front) ++ behind = between ++ c :: (cs ++ (front ++ behind)) := by simp
    have hplace : p.after (between ++ c :: (cs ++ front)) = ((p.after between).after (c :: cs)).after front := by
      rw [← List.cons_append, Position.after_append, Position.after_append]
    rw [hall, lexemesFrom_cons hgap hfound, ih, hplace]
    rfl

end Renders

/-- Separators are no tokens. -/
theorem lexemesFrom_of_separators {cs : List Char} (h : AreSeparators [] cs) (p : Position) :
    lexemesFrom p cs = [.atEnd (p.after cs) (cs.contains '\n')] := by
  have hgap : gap cs = ⟨cs.length, false⟩ := by
    have := h.gap_append
    rw [List.append_nil] at this
    rw [this, gap]
    rfl
  rw [lexemesFrom]
  split
  · rw [hgap, List.take_length]
  · next hdrop =>
    rw [hgap, List.drop_length] at hdrop
    contradiction

theorem length_recognizeMark_le (c : Char) (cs : List Char) : (recognizeMark c cs).length ≤ cs.length := by
  have htake : ∀ p : Char → Bool, (cs.takeWhile p).length ≤ cs.length := fun p => (List.takeWhile_prefix p).length_le
  have hhead : ∀ {d : Char} {ds : List Char}, ds.head? = some d → 1 ≤ ds.length := fun hd => by
    obtain ⟨ds, rfl⟩ := List.head?_eq_some_iff.mp hd
    exact Nat.succ_pos _
  unfold recognizeMark
  dsimp only
  split
  case h_11 =>
    split
    · next hdot =>
      show (if _ then 2 else 1) ≤ _
      split
      · next hangle =>
        have := hhead hangle
        rw [List.length_drop] at this
        omega
      · exact hhead hdot
    · exact Nat.zero_le _
  all_goals (try split) <;> first | exact Nat.zero_le _ | exact htake _ | exact hhead ‹_›

/-- What is recognized is part of the text. -/
theorem length_recognize_le (c : Char) (cs : List Char) : (recognize c cs).length ≤ cs.length := by
  have hliteral : ∀ {opening : Nat} {e : Enclosure} {found : TokenKind}, opening ≤ cs.length →
      (recognizeLiteral opening e found cs).length ≤ cs.length := fun {opening e found} hle => by
    have hreach := Enclosure.length_skip_le [e] (cs.drop opening)
    rw [List.length_drop] at hreach
    show opening + (Enclosure.skip [e] (cs.drop opening)).length ≤ cs.length
    omega
  unfold recognize
  dsimp only
  split
  · split
    · next hmarks =>
      have hlength := congrArg List.length hmarks
      rw [List.length_take] at hlength
      exact hliteral (Nat.le_trans (Nat.le_of_eq hlength.symm) (Nat.min_le_right _ _))
    · exact hliteral (Nat.zero_le _)
  split
  · exact hliteral (Nat.zero_le _)
  split
  · split
    · next hclosed =>
      obtain ⟨ds, hds⟩ := List.head?_eq_some_iff.mp hclosed
      have hlength := congrArg List.length hds
      rw [List.length_drop, List.length_cons] at hlength
      show _ + 1 ≤ _
      omega
    · exact (List.takeWhile_prefix _).length_le
  split
  · exact numberLength_le _
  split
  · exact (List.takeWhile_prefix _).length_le
  · exact length_recognizeMark_le c cs

/-- A text without errors is read as the tokens that it renders, and separators. -/
theorem exists_renders {p : Position} {cs : List Char} (h : ∀ x ∈ lexemesFrom p cs, x.error? = none) :
    ∃ front between ts, cs = front ++ between ∧ Renders between p front ts ∧ AreSeparators [] between := by
  fun_induction lexemesFrom p cs with
  | case1 p cs between p' hrest =>
    obtain ⟨hall, hgap⟩ := Piece.gap_append hrest
    rw [List.append_nil] at hall
    exact ⟨[], between, [], hall.symm, .nil, hgap⟩
  | case2 => cases h _ List.mem_cons_self
  | case3 p cs between p' c rest hrest hclosed found taken ih =>
    obtain ⟨front, behind, ts, hsplit, hrenders, hbehind⟩ := ih fun x hx => h x (List.mem_cons_of_mem _ hx)
    obtain ⟨hall, hgap⟩ := Piece.gap_append hrest
    have hfirst := h _ List.mem_cons_self
    obtain ⟨kind, hkind⟩ : ∃ kind, found.kind = .ok kind := by
      cases hkind : found.kind with
      | error fault =>
        rw [hkind] at hfirst
        cases hfirst
      | ok kind => exact ⟨kind, rfl⟩
    have hlength : (rest.take found.length).length = found.length :=
      List.length_take_of_le (length_recognize_le c rest)
    have hsplit' : rest = rest.take found.length ++ (front ++ behind) := by
      rw [← hsplit, List.take_append_drop]
    have hbegins : gap (c :: rest) = ⟨0, false⟩ := by
      have hbetween : between.length = (gap cs).length := List.length_take_of_le (length_gap_le cs)
      have hmeasured : gap cs = (gap (c :: rest)).beyond between.length := by
        rw [← hgap.gap_append]
        exact congrArg gap hall.symm
      have hnone : (gap cs).length = between.length + (gap (c :: rest)).length := congrArg Gap.length hmeasured
      have hclosed' : (gap cs).unclosed = (gap (c :: rest)).unclosed := by rw [hmeasured, Gap.beyond]
      rw [Gap.mk.injEq]
      exact ⟨by omega, by rw [← hclosed']; simpa using hclosed⟩
    let t : Token := ⟨kind, String.ofList (Lexeme.keptText taken), p'.spanOf taken, between.contains '\n'⟩
    refine ⟨between ++ c :: (rest.take found.length ++ front), behind, t :: ts, ?_, .cons ?_ ?_ ?_ hrenders, hbehind⟩
    · rw [← hall, List.append_assoc, List.cons_append, List.append_assoc, ← hsplit']
    · rwa [← hsplit']
    · rwa [← hsplit']
    · rw [← hsplit', hlength, ← hkind]

end ServiceCatalog
