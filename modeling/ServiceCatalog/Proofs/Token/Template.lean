import ServiceCatalog.Proofs.Parse.Brackets
import ServiceCatalog.Proofs.Token.Literal
import ServiceCatalog.Proofs.Token.Lossless
import ServiceCatalog.Proofs.Token.Spelling

/-!
# What a template passes over

The end of a template is found by a pass over characters that knows strings, characters, block comments and braces.  It
does not know line comments and quoted identifiers, which may hold quotes and braces as well.  On a text in which these
do no harm, the pass does what the tokens of the text say: it goes in at each opening brace and out at each closing one.

* `PassesOver`, `passesOver_of_plain`: texts that do no harm.
* `unseen`: the line comments and the quoted identifiers of a text.
* `skip_gap`, `skip_recognized`: the pass over separators, and over one token.
* `skip_lexemes`: the pass over a text, by induction on its lexemes.
* `lexemes_template`: a text as a template is one string literal.
-/

namespace ServiceCatalog

open Enclosure

/-! ## Single characters -/

/-- The characters that a pass over a template stops at. -/
def templateMarks : List Char := ['{', '}', '"', '\'', '/']

/-- A property that the marks do not have tells other characters. -/
theorem notMem_templateMarks {p : Char → Bool} (hmarks : templateMarks.any p = false) {c : Char}
    (h : p c = true) : c ∉ templateMarks := by
  intro hmark
  exact List.any_eq_false.mp hmarks c hmark h

section Steps

variable {depth n : Nat} {c : Char} {cs rest : List Char}

theorem skip_other (h : c ∉ templateMarks) :
    skip [.template depth] (c :: cs) = (skip [.template depth] cs).beyond 1 := by
  simp only [templateMarks, List.mem_cons, List.not_mem_nil, or_false, not_or] at h
  rw [skip_cons_cons]
  simp [step, h]

theorem skip_slash (h : cs.head? ≠ some '*') :
    skip [.template depth] ('/' :: cs) = (skip [.template depth] cs).beyond 1 := by
  rw [skip_cons_cons]
  simp [step, h]

theorem skip_leftBrace :
    skip [.template depth] ('{' :: cs) = (skip [.template (depth + 1)] cs).beyond 1 := by
  rw [skip_cons_cons]
  rfl

theorem skip_rightBrace :
    skip [.template (depth + 1)] ('}' :: cs) = (skip [.template depth] cs).beyond 1 := by
  rw [skip_cons_cons]
  rfl

theorem skip_rightBrace_last : skip [.template 0] ('}' :: cs) = ⟨true, 1⟩ := by
  rw [skip_cons_cons]
  show (skip [] cs).beyond 1 = _
  rw [skip_nil]
  rfl

theorem skip_apostrophe :
    skip [.template depth] ('\'' :: cs) = (skip ([.character] ++ [.template depth]) cs).beyond 1 := by
  rw [skip_cons_cons]
  rfl

theorem skip_quotes :
    skip [.template depth] ('"' :: '"' :: '"' :: cs) = (skip ([.raw] ++ [.template depth]) cs).beyond 3 := by
  rw [skip_cons_cons]
  rfl

theorem skip_others (h : ∀ d ∈ cs, d ∉ templateMarks) :
    skip [.template depth] (cs ++ rest) = (skip [.template depth] rest).beyond cs.length := by
  induction cs with
  | nil => exact (Reach.beyond_zero _).symm
  | cons c cs ih =>
    obtain ⟨hc, hcs⟩ := List.forall_mem_cons.mp h
    rw [List.cons_append, skip_other hc, ih hcs, Reach.beyond_beyond, List.length_cons, Nat.add_comm]

end Steps

/-! ## Texts that do no harm -/

/-- Whether a pass over a template passes over a text, whatever is behind it; only a slash must not begin a comment with
what is behind it. -/
def PassesOver (t : List Char) : Prop :=
  ∀ depth rest, (t.getLast? = some '/' → rest.head? ≠ some '*') →
    skip [.template depth] (t ++ rest) = (skip [.template depth] rest).beyond t.length

/-- A text does no harm without quotes, braces and the beginning of a comment. -/
theorem passesOver_of_plain {t : List Char} (hmarks : ∀ c ∈ t, c ∈ templateMarks → c = '/')
    (hcomment : ¬ ['/', '*'] <:+: t) : PassesOver t := by
  intro depth rest hrest
  induction t with
  | nil => exact (Reach.beyond_zero _).symm
  | cons c cs ih =>
    obtain ⟨hc, hcs⟩ := List.forall_mem_cons.mp hmarks
    have hrest' : cs.getLast? = some '/' → rest.head? ≠ some '*' := by
      intro hlast
      refine hrest ?_
      rw [List.getLast?_cons, hlast]
      rfl
    have hfirst : skip [.template depth] (c :: (cs ++ rest)) = (skip [.template depth] (cs ++ rest)).beyond 1 := by
      by_cases hmark : c ∈ templateMarks
      · obtain rfl := hc hmark
        refine skip_slash fun hstar => ?_
        cases cs with
        | nil => exact hrest rfl hstar
        | cons d cs =>
          obtain rfl : d = '*' := Option.some.inj hstar
          exact hcomment ⟨[], cs, rfl⟩
      · exact skip_other hmark
    have hcomment' : ¬ ['/', '*'] <:+: cs := fun h => hcomment (h.trans (List.suffix_cons c cs).isInfix)
    rw [List.cons_append, hfirst, ih hcs hcomment' hrest', Reach.beyond_beyond, List.length_cons, Nat.add_comm]

/-! ## Line comments and quoted identifiers -/

/-- The line comments among the separators that a text begins with. -/
def lineComments : List Char → List (List Char)
  | [] => []
  | c :: cs =>
    if Text.isBlank c then lineComments cs
    else if c = '/' && cs.head? = some '/' then
      let n := (cs.takeWhile (· ≠ '\n')).length
      (c :: cs.take n) :: lineComments (cs.drop n)
    else if c = '/' && cs.head? = some '*' then
      lineComments (cs.drop ((Gap.commentReach (cs.drop 1)).length + 1))
    else []
termination_by cs => cs.length
decreasing_by all_goals simp only [List.length_drop, List.length_cons]; omega

/-- The line comments and the quoted identifiers of a text. -/
def unseen (cs : List Char) : List (List Char) :=
  lineComments cs ++
    match _h : cs.drop (gap cs).length with
    | [] => []
    | c :: rest =>
      let taken := rest.take (recognize c rest).length
      let others := unseen (rest.drop (recognize c rest).length)
      if c = '`' then (c :: taken) :: others else others
termination_by cs.length
decreasing_by
  have h := congrArg List.length _h
  simp only [List.length_drop, List.length_cons] at h ⊢
  omega

section Pass

variable {cs rest : List Char}

theorem skip_blockComment {depth : Nat} :
    skip [.template depth] ('/' :: '*' :: cs) = (skip ([.comment 0] ++ [.template depth]) cs).beyond 2 := by
  rw [skip_cons_cons]
  rfl

/-- A pass over a template passes over separators whose line comments do no harm. -/
theorem skip_gap (hclosed : (gap cs).unclosed = false) (hlines : ∀ t ∈ lineComments cs, PassesOver t)
    (hrest : rest.head? = some '}') (depth : Nat) :
    skip [.template depth] (cs ++ rest) =
      (skip [.template depth] (cs.drop (gap cs).length ++ rest)).beyond (gap cs).length := by
  fun_induction gap cs with
  | case1 => exact (Reach.beyond_zero _).symm
  | case2 c cs hblank ih =>
    unfold lineComments at hlines
    rw [if_pos hblank] at hlines
    have hdrop := Gap.drop_beyond c cs 0 (gap cs)
    rw [List.cons_append, skip_other (notMem_templateMarks (by decide) hblank), ih hclosed hlines, Reach.beyond_beyond,
      hdrop]
    rfl
  | case3 c cs hblank hline n ih =>
    unfold lineComments at hlines
    rw [if_neg hblank, if_pos hline] at hlines
    obtain ⟨hcomment, hlines⟩ := List.forall_mem_cons.mp hlines
    obtain ⟨line, behind, rfl, htaken, -, hend⟩ := exists_line cs
    have hn : n = line.length := congrArg List.length htaken
    have hdrop := Gap.drop_beyond c (line ++ behind) n (gap ((line ++ behind).drop n))
    have hbehind : (behind ++ rest).head? ≠ some '*' := by
      rw [List.head?_append, hrest]
      rcases hend with hend | hend <;> rw [hend] <;> decide
    rw [htaken, List.drop_left] at hlines
    rw [htaken, List.take_left] at hcomment
    rw [hn, List.drop_left] at ih hdrop hclosed ⊢
    rw [hdrop, List.cons_append, List.append_assoc, ← List.cons_append, hcomment depth (behind ++ rest) fun _ => hbehind,
      ih hclosed hlines, Reach.beyond_beyond]
    rfl
  | case4 c cs hblank hline hblock reach hreach ih =>
    unfold lineComments at hlines
    rw [if_neg hblank, if_neg hline, if_pos hblock] at hlines
    obtain ⟨rfl, hhead⟩ : c = '/' ∧ cs.head? = some '*' := by simpa using hblock
    obtain ⟨inside, rfl⟩ := List.head?_eq_some_iff.mp hhead
    obtain ⟨front, behind, rfl, hskip⟩ := exists_front_of_closed hreach
    have hreach : reach.length = front.length := congrArg Reach.length hskip
    have hdrop := Gap.drop_beyond '/' ('*' :: (front ++ behind)) (reach.length + 1)
      (gap (('*' :: (front ++ behind)).drop (reach.length + 1)))
    have hfront : (Gap.commentReach (('*' :: (front ++ behind)).drop 1)).length = front.length := hreach
    rw [hfront, List.drop_succ_cons, List.drop_left] at hlines
    rw [hreach, List.drop_succ_cons, List.drop_left] at ih hdrop hclosed ⊢
    have hquote : rest.head? ≠ some '"' := by simp [hrest]
    rw [hdrop, List.cons_append, List.cons_append, List.append_assoc, skip_blockComment,
      skip_append_of_closed (skip_extend hskip hquote), ih hclosed hlines, Reach.beyond_beyond, Reach.beyond_beyond,
      Gap.beyond, Nat.add_comm 2]
  | case5 => contradiction
  | case6 => exact (Reach.beyond_zero _).symm

end Pass

/-! ## One token -/

section Token

variable {c : Char} {cs rest : List Char} {kind : TokenKind}

theorem notMem_of_mem_takeWhile {p : Char → Bool} (hmarks : templateMarks.any p = false) :
    ∀ d ∈ cs.takeWhile p, d ∉ templateMarks :=
  fun _ hd => notMem_templateMarks hmarks (List.mem_takeWhile_imp hd)

/-- A number goes on with none of the marks. -/
theorem notMem_of_mem_number (hexadecimal : Bool) (cs : List Char) :
    ∀ d ∈ cs.take (numberLength hexadecimal cs), d ∉ templateMarks :=
  forall_mem_number (fun _ => notMem_templateMarks (p := isNumberPart) (by decide)) (by simp [templateMarks]) hexadecimal cs

/-- An operator goes on with none of the marks. -/
theorem notMem_of_mem_mark (c : Char) (cs : List Char) :
    ∀ d ∈ cs.take (recognizeMark c cs).length, d ∉ templateMarks :=
  forall_mem_mark (fun _ => notMem_templateMarks (p := isOperatorPart) (by decide)) (by simp [templateMarks]) c cs

theorem eq_leftBrace_of_recognizeMark (h : (recognizeMark c cs).kind = .ok .leftBrace) : c = '{' := by
  unfold recognizeMark at h
  dsimp only at h
  split at h <;> (try split at h) <;> first | rfl | exact absurd h nofun

theorem eq_rightBrace_of_recognizeMark (h : (recognizeMark c cs).kind = .ok .rightBrace) : c = '}' := by
  unfold recognizeMark at h
  dsimp only at h
  split at h <;> (try split at h) <;> first | rfl | exact absurd h nofun

/-- A pass over a template passes over a literal or a comment that is closed. -/
theorem skip_enclosed {e : Enclosure} {inside : List Char} {depth : Nat} (h : (skip [e] inside).closed = true)
    (hrest : rest.head? = some '}') : skip ([e] ++ [.template depth]) (inside ++ rest) =
      (skip [.template depth] (inside.drop (skip [e] inside).length ++ rest)).beyond (skip [e] inside).length := by
  obtain ⟨front, behind, rfl, hskip⟩ := exists_front_of_closed h
  have hquote : rest.head? ≠ some '"' := by simp [hrest]
  rw [hskip, List.drop_left, List.append_assoc, skip_append_of_closed (skip_extend hskip hquote)]

/-- A pass over a template goes into a literal and comes out behind it. -/
theorem skip_literal {n depth : Nat} {e : Enclosure} {k : TokenKind} (hn : n ≤ cs.length)
    (hopen : skip [.template depth] (c :: cs ++ rest) =
      (skip ([e] ++ [.template depth]) (cs.drop n ++ rest)).beyond (n + 1))
    (hkind : (recognizeLiteral n e k cs).kind = .ok kind) (hrest : rest.head? = some '}') :
    kind = k ∧ skip [.template depth] (c :: cs ++ rest) =
      (skip [.template depth] (cs.drop (recognizeLiteral n e k cs).length ++ rest)).beyond
        (c :: cs.take (recognizeLiteral n e k cs).length).length := by
  have hlength : (recognizeLiteral n e k cs).length = n + (skip [e] (cs.drop n)).length := rfl
  have hclosed : (skip [e] (cs.drop n)).closed = true := by
    by_contra hunclosed
    exact absurd (hkind.symm.trans (if_neg hunclosed)) nofun
  have hk : kind = k := Except.ok.inj (hkind.symm.trans (if_pos hclosed))
  have hle := length_skip_le [e] (cs.drop n)
  rw [List.length_drop] at hle
  refine ⟨hk, ?_⟩
  rw [hopen, skip_enclosed hclosed hrest, Reach.beyond_beyond, hlength, List.drop_drop, List.length_cons,
    List.length_take_of_le (by omega), Nat.add_right_comm]

/-- A pass over a template takes a token of which only the first character can be a mark. -/
theorem skip_run {n depth depth' : Nat}
    (hfirst : skip [.template depth] (c :: (cs ++ rest)) = (skip [.template depth'] (cs ++ rest)).beyond 1)
    (hothers : ∀ d ∈ cs.take n, d ∉ templateMarks) :
    skip [.template depth] (c :: cs ++ rest) =
      (skip [.template depth'] (cs.drop n ++ rest)).beyond (c :: cs.take n).length := by
  have hsplit : cs ++ rest = cs.take n ++ (cs.drop n ++ rest) := by
    rw [← List.append_assoc, List.take_append_drop]
  rw [List.cons_append, hfirst, hsplit, skip_others hothers, Reach.beyond_beyond, List.length_cons, Nat.add_comm]

/-- A quote opens a string between single quotes inside a template where it does so on its own. -/
theorem skip_quote (hraw : cs.take 2 ≠ ['"', '"']) (hrest : rest.head? = some '}') {depth : Nat} :
    skip [.template depth] ('"' :: cs ++ rest) = (skip ([.quoted] ++ [.template depth]) (cs ++ rest)).beyond 1 := by
  have hraw' : (cs ++ rest).take 2 ≠ ['"', '"'] := by
    obtain ⟨behind, rfl⟩ := List.head?_eq_some_iff.mp hrest
    rcases cs with _ | ⟨a, _ | ⟨b, cs⟩⟩
    · simp
    · simp
    · exact hraw
  rw [List.cons_append, skip_cons_cons]
  simp [step, hraw']

/-- A pass over a template goes in at an opening brace, and out at one that closes a brace of it. -/
theorem skip_mark {place : Nat} {opened opened' : List Nat} (hkind : (recognizeMark c cs).kind = .ok kind)
    (hslash : c = '/' → cs.head? ≠ some '*') (hstring : c ≠ '"') (hcharacter : c ≠ '\'')
    (hrest : rest.head? = some '}') (hopened : bracesBehind place opened kind = some opened') :
    skip [.template opened.length] (c :: (cs ++ rest)) = (skip [.template opened'.length] (cs ++ rest)).beyond 1 := by
  by_cases hleft : c = '{'
  · subst hleft
    obtain rfl : TokenKind.leftBrace = kind := Except.ok.inj hkind
    obtain rfl : place :: opened = opened' := Option.some.inj hopened
    exact skip_leftBrace
  by_cases hright : c = '}'
  · subst hright
    obtain rfl : TokenKind.rightBrace = kind := Except.ok.inj hkind
    cases opened with
    | nil => contradiction
    | cons first opened =>
      obtain rfl : opened = opened' := Option.some.inj hopened
      exact skip_rightBrace
  have hsame : opened' = opened := by
    have hleft' : kind ≠ .leftBrace := fun h => hleft (eq_leftBrace_of_recognizeMark (h ▸ hkind))
    have hright' : kind ≠ .rightBrace := fun h => hright (eq_rightBrace_of_recognizeMark (h ▸ hkind))
    exact (Option.some.inj ((bracesBehind_other hleft' hright' place opened).symm.trans hopened)).symm
  rw [hsame]
  by_cases hc : c = '/'
  · subst hc
    refine skip_slash ?_
    cases cs with
    | nil => simp [hrest]
    | cons d cs => exact hslash rfl
  · refine skip_other ?_
    simp [templateMarks, hleft, hright, hstring, hcharacter, hc]

/-- A pass over a template does at a token what the braces of the token say. -/
theorem skip_recognized (hkind : (recognize c cs).kind = .ok kind) (hslash : c = '/' → cs.head? ≠ some '*')
    (hquoted : c = '`' → PassesOver (c :: cs.take (recognize c cs).length)) (hrest : rest.head? = some '}')
    {place : Nat} {opened opened' : List Nat} (hopened : bracesBehind place opened kind = some opened') :
    skip [.template opened.length] (c :: cs ++ rest) =
      (skip [.template opened'.length] (cs.drop (recognize c cs).length ++ rest)).beyond
        (c :: cs.take (recognize c cs).length).length := by
  have hsame : kind ≠ .leftBrace → kind ≠ .rightBrace → opened' = opened := by
    intro hleft hright
    exact (Option.some.inj ((bracesBehind_other hleft hright place opened).symm.trans hopened)).symm
  by_cases hstring : c = '"'
  · subst hstring
    by_cases hraw : cs.take 2 = ['"', '"']
    · have hrecognize : recognize '"' cs = recognizeLiteral 2 .raw .stringLiteral cs := by
        rw [recognize, if_pos rfl, if_pos hraw]
      rw [hrecognize] at hkind ⊢
      obtain ⟨inside, rfl⟩ : ∃ inside, cs = '"' :: '"' :: inside :=
        ⟨cs.drop 2, (hraw ▸ List.take_append_drop 2 cs).symm⟩
      obtain ⟨rfl, hskip⟩ := skip_literal (Nat.le_add_left ..) skip_quotes hkind hrest
      rw [hsame (by decide) (by decide), hskip]
    · have hrecognize : recognize '"' cs = recognizeLiteral 0 .quoted .stringLiteral cs := by
        rw [recognize, if_pos rfl, if_neg hraw]
      rw [hrecognize] at hkind ⊢
      obtain ⟨rfl, hskip⟩ := skip_literal (Nat.zero_le _) (skip_quote hraw hrest) hkind hrest
      rw [hsame (by decide) (by decide), hskip]
  by_cases hcharacter : c = '\''
  · subst hcharacter
    have hrecognize : recognize '\'' cs = recognizeLiteral 0 .character .charLiteral cs := by
      rw [recognize, if_neg hstring, if_pos rfl]
    rw [hrecognize] at hkind ⊢
    obtain ⟨rfl, hskip⟩ := skip_literal (Nat.zero_le _) skip_apostrophe hkind hrest
    rw [hsame (by decide) (by decide), hskip]
  by_cases hquote : c = '`'
  · subst hquote
    obtain ⟨rfl, htaken⟩ := recognize_quoted hkind
    have hlast : ('`' :: cs.take (recognize '`' cs).length).getLast? = some '`' := by
      rw [htaken, ← List.cons_append, List.getLast?_concat]
    have hsplit : '`' :: cs = '`' :: cs.take (recognize '`' cs).length ++ cs.drop (recognize '`' cs).length :=
      congrArg ('`' :: ·) (List.take_append_drop ..).symm
    rw [hsame (by decide) (by decide), hsplit, List.append_assoc, hquoted rfl]
    rw [hlast]
    exact fun h => absurd (Option.some.inj h) (by decide)
  by_cases hdigit : c.isDigit = true
  · have hrecognize : recognize c cs =
        ⟨numberLength (c = '0' && (cs.head? = some 'x' || cs.head? = some 'X')) cs, .ok .number⟩ := by
      rw [recognize, if_neg hstring, if_neg hcharacter, if_neg hquote, if_pos hdigit]
    rw [hrecognize] at hkind ⊢
    obtain rfl : TokenKind.number = kind := Except.ok.inj hkind
    rw [hsame (by decide) (by decide)]
    exact skip_run (skip_other (notMem_templateMarks (p := Char.isDigit) (by decide) hdigit))
      (notMem_of_mem_number _ cs)
  by_cases hword : isIdentifierStart c = true
  · have hrecognize : recognize c cs = ⟨(cs.takeWhile isIdentifierPart).length,
        .ok (.ofWord (String.ofList (c :: cs.takeWhile isIdentifierPart)))⟩ := by
      rw [recognize, if_neg hstring, if_neg hcharacter, if_neg hquote, if_neg hdigit, if_pos hword]
    rw [hrecognize] at hkind ⊢
    have hkind : TokenKind.ofWord _ = kind := Except.ok.inj hkind
    rw [hsame (hkind ▸ ofWord_ne (by decide) _) (hkind ▸ ofWord_ne (by decide) _)]
    refine skip_run (skip_other (notMem_templateMarks (p := isIdentifierStart) (by decide) hword)) ?_
    rw [← List.prefix_iff_eq_take.mp (List.takeWhile_prefix _)]
    exact notMem_of_mem_takeWhile (by decide)
  · have hrecognize : recognize c cs = recognizeMark c cs := by
      rw [recognize, if_neg hstring, if_neg hcharacter, if_neg hquote, if_neg hdigit, if_neg hword]
    rw [hrecognize] at hkind ⊢
    exact skip_run (skip_mark hkind hslash hstring hcharacter hrest hopened) (notMem_of_mem_mark c cs)

end Token

/-! ## A text -/

section Lexemes

variable {cs rest : List Char}

/-- What is not seen of a text is that of its first token and of what is behind it. -/
theorem unseen_eq {c : Char} (h : cs.drop (gap cs).length = c :: rest) : unseen cs = lineComments cs ++
    ((if c = '`' then [c :: rest.take (recognize c rest).length] else []) ++
      unseen (rest.drop (recognize c rest).length)) := by
  rw [unseen]
  split
  · next hnil => exact absurd (h.symm.trans hnil) nofun
  · next d ds hcons =>
    obtain ⟨rfl, rfl⟩ := List.cons.inj (h.symm.trans hcons)
    split <;> rfl

theorem lineComments_subset_unseen (cs : List Char) : lineComments cs ⊆ unseen cs := by
  rw [unseen]
  exact List.subset_append_left ..

/-- A pass over a template passes over a text that lexes without errors, and its depth behind it is the number of the
braces that are open there. -/
theorem skip_lexemes {p : Position} (hvalid : ∀ x ∈ lexemesFrom p cs, x.error? = none)
    (hunseen : ∀ t ∈ unseen cs, PassesOver t) (hrest : rest.head? = some '}') {place : Nat} {opened opened' : List Nat}
    (hopened : openBraces place opened ((lexemesFrom p cs).filterMap Lexeme.token?) = some opened') :
    skip [.template opened.length] (cs ++ rest) = (skip [.template opened'.length] rest).beyond cs.length := by
  fun_induction lexemesFrom p cs generalizing place opened with
  | case1 p cs between =>
    rename_i p' hdrop
    have hclosed : (gap cs).unclosed = false := by
      by_contra hunclosed
      have hslash := head?_of_unclosed (Bool.not_eq_false _ ▸ hunclosed)
      rw [hdrop] at hslash
      contradiction
    have hlength : (gap cs).length = cs.length :=
      Nat.le_antisymm (length_gap_le cs) (List.drop_eq_nil_iff.mp hdrop)
    obtain rfl : opened = opened' := Option.some.inj hopened
    rw [skip_gap hclosed (fun t ht => hunseen t (lineComments_subset_unseen cs ht)) hrest, hdrop, hlength]
    rfl
  | case2 => exact absurd (hvalid _ (List.mem_cons_self ..)) (Option.some_ne_none _)
  | case3 p cs between p' c behind hdrop hclosed found =>
    rename_i taken ih
    obtain ⟨hfirst, hvalid⟩ := List.forall_mem_cons.mp hvalid
    rw [unseen_eq hdrop] at hunseen
    simp only [List.forall_mem_append] at hunseen
    obtain ⟨hlines, hquoted, hunseen⟩ := hunseen
    cases hkind : found.kind with
    | error fault =>
      rw [hkind] at hfirst
      contradiction
    | ok kind =>
      rw [hkind] at hopened
      obtain ⟨opened'', hhere, hbehind⟩ := Option.bind_eq_some_iff.mp hopened
      have hclosed : (gap cs).unclosed = false := Bool.not_eq_true _ ▸ hclosed
      have hslash : c = '/' → behind.head? ≠ some '*' := by
        rintro rfl
        exact head?_ne_of_gap hclosed hdrop
      have hquoted : c = '`' → PassesOver taken := by
        intro hc
        exact hquoted taken (by rw [if_pos hc]; exact List.mem_singleton_self _)
      have hsplit : cs = between ++ (taken ++ behind.drop found.length) := by
        rw [List.cons_append, List.take_append_drop, ← hdrop, List.take_append_drop]
      have hbetween : between.length = (gap cs).length := List.length_take_of_le (length_gap_le cs)
      have hlength : cs.length = (gap cs).length + (taken.length + (behind.drop found.length).length) := by
        rw [← hbetween, ← List.length_append, ← List.length_append, ← hsplit]
      rw [skip_gap hclosed hlines hrest, hdrop, skip_recognized hkind hslash hquoted hrest hhere,
        ih hvalid hunseen hbehind, Reach.beyond_beyond, Reach.beyond_beyond, hlength, Nat.add_assoc]

end Lexemes

/-- A text as a template of a string. -/
def template (text : String) : String := "\"$\x7b" ++ text ++ "\x7d\""

theorem lexemes_eq {source : String} (h : headerLength source.toList = 0) :
    lexemes source = lexemesFrom .start source.toList := by
  rw [lexemes, h]
  rfl

/-- A text that lexes without errors, with balanced braces and with nothing in its line comments and quoted identifiers
that a template does not pass over, is part of the string that it is a template of. -/
theorem lexemes_template {text : String} (hheader : headerLength text.toList = 0)
    (hvalid : ∀ x ∈ lexemes text, x.error? = none)
    (hbraces : openBraces 0 [] ((lexemes text).filterMap Lexeme.token?) = some [])
    (hunseen : ∀ t ∈ unseen text.toList, PassesOver t) :
    lexemes (template text) =
      [.token ⟨.stringLiteral, template text, Position.start.spanOf (template text).toList, false⟩,
        .atEnd (Position.start.after (template text).toList) false] := by
  have htext : (template text).toList = '"' :: '$' :: '{' :: (text.toList ++ ['}', '"']) := by
    simp [template]
  rw [lexemes_eq hheader] at hvalid hbraces
  have hinner : skip [.template 0] (text.toList ++ ['}']) = ⟨true, (text.toList ++ ['}']).length⟩ := by
    rw [List.length_append]
    exact (skip_lexemes hvalid hunseen rfl hbraces).trans (congrArg (Reach.beyond _) skip_rightBrace_last)
  have hparts : LineLiteral.string.AreParts ['"'] [.template (text.toList ++ ['}'])] := .template rfl hinner .nil
  obtain ⟨inside, hinside⟩ : ∃ inside, '$' :: '{' :: (text.toList ++ ['}', '"']) = inside := ⟨_, rfl⟩
  have hfound : recognize '"' (inside ++ []) = ⟨inside.length, .ok .stringLiteral⟩ := by
    have hclosed := LineLiteral.recognize_closed hparts (by simp [LineLiteral.OpensRaw, LiteralPart.chars])
    have hwhole : LiteralPart.text [.template (text.toList ++ ['}'])] ++ ['"'] = inside := by
      rw [← hinside]
      simp [LiteralPart.chars]
    have hlength := congrArg List.length hwhole
    rw [List.length_append] at hlength
    rw [List.append_nil, ← hlength, ← hwhole]
    exact hclosed
  have hgap : gap ([] ++ '"' :: (inside ++ [])) = ⟨0, false⟩ := gap_of_blank _ (List.forall_mem_nil _) (by simp; decide)
  have hheader : headerLength (template text).toList = 0 := by
    rw [htext]
    rfl
  have hkept : String.ofList (Lexeme.keptText ('"' :: inside)) = template text := by
    rw [keptText_of_ne (by decide), ← hinside, ← htext, String.ofList_toList]
  have hlexemes := lexemesFrom_cons hgap hfound .start
  rw [List.append_nil, List.nil_append, TextReader.lexemesFrom_nil, Lexeme.ofRecognized, hkept] at hlexemes
  rw [lexemes_eq hheader, htext, hinside, hlexemes]
  rfl

/-! ### Comments and quoted names in a template -/

namespace CommentInTemplate

/-- A text with a line comment and a quoted identifier in which a template finds no mark. -/
def harmless : String := "\x7b `a` \x7d // b\n"

/-- A text whose line comment holds a quote. -/
def harmful : String := "// \"\n"

theorem lexemes_harmless : lexemes harmless = [.token ⟨.leftBrace, "\x7b", ⟨1, 1, 1⟩, false⟩,
    .token ⟨.identifier, "a", ⟨1, 3, 3⟩, false⟩, .token ⟨.rightBrace, "\x7d", ⟨1, 7, 1⟩, false⟩,
    .token ⟨.eof, "", ⟨2, 1, 0⟩, true⟩] := by
  with_unfolding_all rfl

theorem unseen_harmless : unseen harmless.toList = [['`', 'a', '`'], ['/', '/', ' ', 'b']] := by
  with_unfolding_all rfl

theorem lexemes_harmful : lexemes harmful = [.token ⟨.eof, "", ⟨2, 1, 0⟩, true⟩] := by
  with_unfolding_all rfl

theorem lexemes_template_harmful : lexemes (template harmful) =
    [.invalid ⟨.unterminatedString, ⟨1, 1, 7⟩⟩ false, .token ⟨.rightBrace, "\x7d", ⟨2, 1, 1⟩, true⟩,
      .invalid ⟨.unterminatedString, ⟨2, 2, 1⟩⟩ false, .token ⟨.eof, "", ⟨2, 3, 0⟩, false⟩] := by
  with_unfolding_all rfl

/-- The text without marks is part of the string. -/
theorem lexemes_template_harmless : lexemes (template harmless) =
    [.token ⟨.stringLiteral, template harmless, Position.start.spanOf (template harmless).toList, false⟩,
      .atEnd (Position.start.after (template harmless).toList) false] := by
  refine lexemes_template (by decide +kernel) ?_ ?_ ?_
  · rw [lexemes_harmless]
    decide
  · rw [lexemes_harmless]
    rfl
  · rw [unseen_harmless]
    simp only [List.forall_mem_cons]
    refine ⟨passesOver_of_plain ?_ (by decide), passesOver_of_plain ?_ (by decide), nofun⟩ <;> simp [templateMarks]

/-- A text that lexes without errors, with balanced braces and with a line feed behind its last comment, need not be
part of the string that it is a template of. -/
theorem not_forall_lexemes_template : ¬ ∀ text : String, headerLength text.toList = 0 →
    (∀ x ∈ lexemes text, x.error? = none) →
    openBraces 0 [] ((lexemes text).filterMap Lexeme.token?) = some [] → text.toList.getLast? = some '\n' →
      lexemes (template text) =
        [.token ⟨.stringLiteral, template text, Position.start.spanOf (template text).toList, false⟩,
          .atEnd (Position.start.after (template text).toList) false] := by
  intro h
  have hvalid : ∀ x ∈ lexemes harmful, x.error? = none := by
    rw [lexemes_harmful]
    decide
  have hbraces : openBraces 0 [] ((lexemes harmful).filterMap Lexeme.token?) = some [] := by
    rw [lexemes_harmful]
    rfl
  have hlexemes := h harmful (by decide +kernel) hvalid hbraces (by decide +kernel)
  rw [lexemes_template_harmful] at hlexemes
  exact absurd (List.cons.inj hlexemes).1 nofun

end CommentInTemplate

end ServiceCatalog
