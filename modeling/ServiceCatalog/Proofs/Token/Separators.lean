import Mathlib.Data.List.TakeWhile
import ServiceCatalog.Proofs.Token.Enclosure
import ServiceCatalog.Token.Trivia

/-!
# What is skipped between tokens

The separators in front of a token are measured by a pass over the characters.  What the pass takes is described here
without it: blanks, line comments up to the end of their line, and block comments, which are nested as they should.

* `IsCommentBody`: the text between the marks of a block comment.  Inside, a mark belongs to a comment of its own.
* `AreSeparators`: separators with a given text behind them.  `areSeparators_gap` says that `gap` measures some, and
  `AreSeparators.gap_append` that it measures all of them.
* `IsHeader`: a byte order mark and an interpreter line.  `isHeader_headerLength` says the same of it.
-/

namespace ServiceCatalog

/-! ## Block comments -/

/-- Whether a text begins with a mark that opens or closes a block comment. -/
def beginsWithMark (cs : List Char) : Bool := cs.take 2 = ['/', '*'] || cs.take 2 = ['*', '/']

/-- Whether a text is what stands between the marks of a block comment: comments, and characters at which no mark
begins.  The mark that closes the comment stands behind them. -/
inductive IsCommentBody : List Char → Prop
  | nil : IsCommentBody []
  | comment {body cs : List Char} : IsCommentBody body → IsCommentBody cs →
      IsCommentBody ('/' :: '*' :: (body ++ '*' :: '/' :: cs))
  | char {c : Char} {cs : List Char} : beginsWithMark (c :: (cs ++ ['*', '/'])) = false → IsCommentBody cs →
      IsCommentBody (c :: cs)

theorem mark_cases (cs : List Char) : cs = [] ∨ (∃ rest, cs = '/' :: '*' :: rest) ∨
    (∃ rest, cs = '*' :: '/' :: rest) ∨ ∃ c rest, cs = c :: rest ∧ beginsWithMark (c :: rest) = false := by
  cases cs with
  | nil => exact .inl rfl
  | cons c rest =>
    cases hmark : beginsWithMark (c :: rest) with
    | false => exact .inr (.inr (.inr ⟨c, rest, rfl, hmark⟩))
    | true =>
      cases rest with
      | nil => exact absurd hmark (by simp [beginsWithMark])
      | cons d rest =>
        simp only [beginsWithMark, List.take_succ_cons, List.take_zero, Bool.or_eq_true, decide_eq_true_eq,
          List.cons.injEq, and_true] at hmark
        rcases hmark with ⟨rfl, rfl⟩ | ⟨rfl, rfl⟩
        · exact .inr (.inl ⟨rest, rfl⟩)
        · exact .inr (.inr (.inl ⟨rest, rfl⟩))

theorem beginsWithMark_congr {c : Char} {cs ds : List Char} (h : cs.take 1 = ds.take 1) :
    beginsWithMark (c :: cs) = beginsWithMark (c :: ds) := by
  have htake : (c :: cs).take 2 = (c :: ds).take 2 := congrArg (c :: ·) h
  rw [beginsWithMark, beginsWithMark, htake]

section Pass

open Enclosure

variable {depth : Nat} {c : Char} {cs : List Char}

theorem skip_opening : skip [.comment depth] ('/' :: '*' :: cs) = (skip [.comment (depth + 1)] cs).beyond 2 := by
  rw [skip_cons_cons]
  rfl

theorem skip_closing : skip [.comment (depth + 1)] ('*' :: '/' :: cs) = (skip [.comment depth] cs).beyond 2 := by
  rw [skip_cons_cons]
  rfl

theorem skip_closing_last : skip [.comment 0] ('*' :: '/' :: cs) = ⟨true, 2⟩ := by
  rw [skip_cons_cons]
  show (skip [] cs).beyond 2 = _
  rw [skip_nil]
  rfl

theorem skip_char (h : beginsWithMark (c :: cs) = false) :
    skip [.comment depth] (c :: cs) = (skip [.comment depth] cs).beyond 1 := by
  have hopening : ¬(c = '/' ∧ cs.head? = some '*') := by
    cases cs <;> simp_all [beginsWithMark]
  have hclosing : ¬(c = '*' ∧ cs.head? = some '/') := by
    cases cs <;> simp_all [beginsWithMark]
  have hstep : step (.comment depth) c cs = some (0, [.comment depth]) := by
    simp [step, hopening, hclosing]
  rw [skip_cons_cons, hstep]
  rfl

end Pass

/-- The rests of comments around a place, the innermost first, with the marks that close them. -/
def closings (bodies : List (List Char)) : List Char := bodies.flatMap (· ++ ['*', '/'])

theorem closings_cons (body : List Char) (bodies : List (List Char)) :
    closings (body :: bodies) = body ++ '*' :: '/' :: closings bodies := by
  simp [closings]

/-- A pass that closes the comments around it takes the rest of each of them. -/
theorem exists_bodies_of_closed (depth : Nat) (cs : List Char) (h : (Enclosure.skip [.comment depth] cs).closed) :
    ∃ bodies behind, bodies.length = depth + 1 ∧ (∀ b ∈ bodies, IsCommentBody b) ∧ cs = closings bodies ++ behind ∧
      (Enclosure.skip [.comment depth] cs).length = (closings bodies).length := by
  rcases mark_cases cs with rfl | ⟨rest, rfl⟩ | ⟨rest, rfl⟩ | ⟨c, rest, rfl, hmark⟩
  · exact absurd h (by simp)
  · rw [skip_opening] at h ⊢
    obtain ⟨bodies, behind, hcount, hbodies, rfl, hlength⟩ := exists_bodies_of_closed (depth + 1) rest h
    obtain ⟨inner, body, outer, rfl⟩ : ∃ inner body outer, bodies = inner :: body :: outer := by
      match bodies, hcount with
      | inner :: body :: outer, _ => exact ⟨inner, body, outer, rfl⟩
    obtain ⟨hinner, hbody, houter⟩ : IsCommentBody inner ∧ IsCommentBody body ∧ ∀ b ∈ outer, IsCommentBody b := by
      simpa using hbodies
    refine ⟨('/' :: '*' :: (inner ++ '*' :: '/' :: body)) :: outer, behind, Nat.succ.inj hcount,
      List.forall_mem_cons.mpr ⟨.comment hinner hbody, houter⟩, ?_, ?_⟩
    · simp [closings_cons]
    · rw [Enclosure.Reach.length_beyond, hlength]
      simp only [closings_cons, List.length_append, List.length_cons]
      omega
  · cases depth with
    | zero => exact ⟨[[]], rest, rfl, by simpa using IsCommentBody.nil, rfl, by rw [skip_closing_last]; rfl⟩
    | succ depth =>
      rw [skip_closing] at h ⊢
      obtain ⟨bodies, behind, hcount, hbodies, rfl, hlength⟩ := exists_bodies_of_closed depth rest h
      refine ⟨[] :: bodies, behind, congrArg (· + 1) hcount, List.forall_mem_cons.mpr ⟨.nil, hbodies⟩, rfl, ?_⟩
      rw [Enclosure.Reach.length_beyond, hlength, closings_cons, Nat.add_comm]
      rfl
  · rw [skip_char hmark] at h ⊢
    obtain ⟨bodies, behind, hcount, hbodies, rfl, hlength⟩ := exists_bodies_of_closed depth rest h
    obtain ⟨body, outer, rfl⟩ := List.exists_cons_of_length_eq_add_one hcount
    obtain ⟨hbody, houter⟩ := List.forall_mem_cons.mp hbodies
    have hhead : (body ++ ['*', '/']).take 1 = (closings (body :: outer) ++ behind).take 1 := by
      rw [closings_cons]
      cases body <;> rfl
    refine ⟨(c :: body) :: outer, behind, hcount, List.forall_mem_cons.mpr ⟨.char ?_ hbody, houter⟩, rfl, ?_⟩
    · rw [beginsWithMark_congr hhead, hmark]
    · rw [Enclosure.Reach.length_beyond, hlength, Nat.add_comm]
      rfl
termination_by cs.length

/-- A block comment that is closed ends with the mark that closes it. -/
theorem exists_body_of_closed {cs : List Char} (h : (Gap.commentReach cs).closed) :
    ∃ body behind, IsCommentBody body ∧ cs = body ++ '*' :: '/' :: behind ∧
      (Gap.commentReach cs).length = body.length + 2 := by
  obtain ⟨bodies, behind, hcount, hbodies, rfl, hlength⟩ := exists_bodies_of_closed 0 cs h
  obtain ⟨body, rfl⟩ := List.length_eq_one_iff.mp hcount
  refine ⟨body, behind, hbodies body (List.mem_singleton_self body), by simp [closings], ?_⟩
  rw [Gap.commentReach, hlength]
  simp [closings]

/-! ## Separators -/

/-- Whether a text is the end of a line, or of the file. -/
def EndsLine (cs : List Char) : Prop := cs.head? = none ∨ cs.head? = some '\n'

/-- Whether characters separate tokens, with a given text behind them. -/
inductive AreSeparators (behind : List Char) : List Char → Prop
  | nil : AreSeparators behind []
  | blank {c : Char} {cs : List Char} : Text.isBlank c = true → AreSeparators behind cs → AreSeparators behind (c :: cs)
  | line {body cs : List Char} : '\n' ∉ body → EndsLine (cs ++ behind) → AreSeparators behind cs →
      AreSeparators behind ('/' :: '/' :: (body ++ cs))
  | block {body cs : List Char} : IsCommentBody body → AreSeparators behind cs →
      AreSeparators behind ('/' :: '*' :: (body ++ '*' :: '/' :: cs))

/-- A text begins with the rest of its line. -/
theorem exists_line (cs : List Char) : ∃ line behind, cs = line ++ behind ∧ cs.takeWhile (· ≠ '\n') = line ∧
    '\n' ∉ line ∧ EndsLine behind := by
  refine ⟨cs.takeWhile (· ≠ '\n'), cs.dropWhile (· ≠ '\n'), List.takeWhile_append_dropWhile.symm, rfl, fun h => ?_, ?_⟩
  · simpa using List.mem_takeWhile_imp h
  · cases hhead : (cs.dropWhile (· ≠ '\n')).head? with
    | none => exact .inl hhead
    | some c =>
      have hc := List.head?_dropWhile_not (· ≠ '\n') cs
      rw [hhead] at hc
      exact .inr (hhead.trans (congrArg some (by simpa using hc)))

/-- Separators that a piece of text is in front of. -/
theorem AreSeparators.of_append {cs : List Char} {g : Gap} {n : Nat} (front rest : List Char)
    (hcs : cs = front ++ rest) (hn : n = front.length)
    (h : AreSeparators (rest.drop g.length) (front ++ rest.take g.length)) :
    AreSeparators (cs.drop (g.beyond n).length) (cs.take (g.beyond n).length) := by
  subst hcs hn
  rw [Gap.beyond, List.drop_length_add_append, List.take_length_add_append]
  exact h

/-- The gap at the beginning of a text are separators. -/
theorem areSeparators_gap (cs : List Char) : AreSeparators (cs.drop (gap cs).length) (cs.take (gap cs).length) := by
  fun_induction gap cs with
  | case1 => exact .nil
  | case2 c cs hblank ih => exact .of_append [c] cs rfl rfl (.blank hblank ih)
  | case3 c cs hblank hline n ih =>
    obtain ⟨rfl, hhead⟩ : c = '/' ∧ cs.head? = some '/' := by simpa using hline
    obtain ⟨rest, rfl⟩ := List.head?_eq_some_iff.mp hhead
    obtain ⟨line, behind, rfl, hline, hnewline, hend⟩ := exists_line rest
    have hn : n = line.length + 1 := by
      rw [← hline]
      exact congrArg List.length (List.takeWhile_cons_of_pos (by decide))
    have hdrop : ('/' :: (line ++ behind)).drop n = behind := by simp [hn]
    rw [hdrop] at ih ⊢
    refine .of_append ('/' :: '/' :: line) behind rfl (congrArg (· + 1) hn) (.line hnewline ?_ ih)
    rwa [List.take_append_drop]
  | case4 c cs hblank hline hblock reach hclosed ih =>
    obtain ⟨rfl, hhead⟩ : c = '/' ∧ cs.head? = some '*' := by simpa using hblock
    obtain ⟨rest, rfl⟩ := List.head?_eq_some_iff.mp hhead
    obtain ⟨body, behind, hbody, hrest, hlength⟩ := exists_body_of_closed hclosed
    have hrest : rest = body ++ '*' :: '/' :: behind := hrest
    have hlength : reach.length = body.length + 2 := hlength
    have hdrop : ('*' :: rest).drop (reach.length + 1) = behind := by simp [hrest, hlength]
    rw [hdrop] at ih ⊢
    refine .of_append ('/' :: '*' :: (body ++ ['*', '/'])) behind (by simp [hrest]) (by simp [hlength]) ?_
    have hseparators := ih.block hbody
    simpa using hseparators
  | case5 c cs hblank hline hblock reach hclosed => exact .nil
  | case6 => exact .nil

/-- A pass in a comment takes the text between its marks. -/
theorem IsCommentBody.skip_append {body : List Char} (h : IsCommentBody body) (depth : Nat) (cs : List Char) :
    Enclosure.skip [.comment depth] (body ++ '*' :: '/' :: cs) =
      (Enclosure.skip [.comment depth] ('*' :: '/' :: cs)).beyond body.length := by
  induction h generalizing depth cs with
  | nil => exact (Enclosure.Reach.beyond_zero _).symm
  | @comment body ds _ _ ihbody ih =>
    have hall : '/' :: '*' :: (body ++ '*' :: '/' :: ds) ++ '*' :: '/' :: cs =
        '/' :: '*' :: (body ++ '*' :: '/' :: (ds ++ '*' :: '/' :: cs)) := by simp
    have hlength : 2 + body.length + 2 + ds.length = ('/' :: '*' :: (body ++ '*' :: '/' :: ds)).length := by
      simp only [List.length_cons, List.length_append]
      omega
    rw [hall, skip_opening, ihbody, skip_closing, ih, Enclosure.Reach.beyond_beyond, Enclosure.Reach.beyond_beyond,
      Enclosure.Reach.beyond_beyond, hlength]
  | @char c ds hmark _ ih =>
    have hhead : (ds ++ ['*', '/']).take 1 = (ds ++ '*' :: '/' :: cs).take 1 := by cases ds <;> rfl
    rw [List.cons_append, skip_char (beginsWithMark_congr hhead ▸ hmark), ih, Enclosure.Reach.beyond_beyond,
      List.length_cons, Nat.add_comm]

theorem Gap.length_beyond (n : Nat) (g : Gap) : (g.beyond n).length = n + g.length := rfl

namespace AreSeparators

variable {behind rest cs ds : List Char}

theorem of_blank (h : ∀ c ∈ cs, Text.isBlank c = true) : AreSeparators behind cs := by
  induction cs with
  | nil => exact .nil
  | cons c cs ih => exact .blank (h c List.mem_cons_self) (ih fun d hd => h d (List.mem_cons_of_mem c hd))

/-- Separators in front of others. -/
theorem append (h : AreSeparators (ds ++ behind) cs) (h' : AreSeparators behind ds) :
    AreSeparators behind (cs ++ ds) := by
  induction h with
  | nil => exact h'
  | blank hc _ ih => exact .blank hc ih
  | line hbody hend _ ih =>
    rw [List.cons_append, List.cons_append, List.append_assoc]
    exact .line hbody (by rwa [List.append_assoc]) ih
  | block hbody _ ih =>
    have hall := ih.block hbody
    simpa using hall

/-- What is behind separators can be exchanged, unless it ends a comment. -/
theorem exchange (h : AreSeparators behind cs) (hline : EndsLine behind → EndsLine rest) : AreSeparators rest cs := by
  induction h with
  | nil => exact .nil
  | blank hc _ ih => exact .blank hc ih
  | @line body cs hbody hend _ ih =>
    refine .line hbody ?_ ih
    cases cs with
    | nil => exact hline hend
    | cons c cs => exact hend
  | block hbody _ ih => exact .block hbody ih

/-- Separators are measured as such. -/
theorem gap_append (h : AreSeparators behind cs) : gap (cs ++ behind) = (gap behind).beyond cs.length := by
  induction h with
  | nil =>
    rw [List.nil_append, Gap.beyond, List.length_nil, Nat.zero_add]
  | @blank c cs hc _ ih =>
    rw [List.cons_append, gap, if_pos hc, ih, Gap.beyond, Gap.beyond, Gap.beyond, List.length_cons, Nat.add_comm 1,
      Nat.add_right_comm]
  | @line body cs hbody hend _ ih =>
    have htake : ('/' :: (body ++ (cs ++ behind))).takeWhile (· ≠ '\n') = '/' :: body := by
      rw [← List.cons_append, List.takeWhile_append_of_pos]
      · rcases hend with hend | hend
        · rw [List.head?_eq_none_iff.mp hend]
          simp
        · obtain ⟨ds, hds⟩ := List.head?_eq_some_iff.mp hend
          rw [hds]
          simp
      · simpa using fun c hc => ne_of_mem_of_not_mem hc hbody
    have hall : '/' :: '/' :: (body ++ cs) ++ behind = '/' :: '/' :: (body ++ (cs ++ behind)) := by simp
    rw [hall, gap, if_neg (by decide), if_pos (by simp)]
    dsimp only
    rw [htake, List.length_cons, List.drop_succ_cons, List.drop_left, ih]
    simp only [Gap.beyond, Gap.mk.injEq, List.length_cons, List.length_append, and_true]
    omega
  | @block body cs hbody _ ih =>
    have hreach : Gap.commentReach (('*' :: (body ++ '*' :: '/' :: (cs ++ behind))).drop 1) =
        ⟨true, body.length + 2⟩ := by
      rw [List.drop_succ_cons, List.drop_zero, Gap.commentReach, hbody.skip_append, skip_closing_last]
      rfl
    have hall : '/' :: '*' :: (body ++ '*' :: '/' :: cs) ++ behind =
        '/' :: '*' :: (body ++ '*' :: '/' :: (cs ++ behind)) := by simp
    have hdrop : ('*' :: (body ++ '*' :: '/' :: (cs ++ behind))).drop (body.length + 2 + 1) = cs ++ behind := by
      rw [List.drop_succ_cons, List.drop_length_add_append]
      rfl
    rw [hall, gap, if_neg (by decide), if_neg (by simp), if_pos (by simp)]
    dsimp only
    rw [hreach, if_pos rfl, hdrop, ih]
    simp only [Gap.beyond, Gap.mk.injEq, List.length_cons, List.length_append, and_true]
    omega

end AreSeparators

/-- What is behind separators that begin with given characters. -/
theorem Gap.drop_beyond (c : Char) (cs : List Char) (n : Nat) (g : Gap) :
    (c :: cs).drop (g.beyond (n + 1)).length = (cs.drop n).drop g.length := by
  rw [beyond, List.drop_drop, Nat.add_right_comm, List.drop_succ_cons]

/-- Where separators are followed by a comment that is never closed, they end at the comment. -/
theorem head?_of_unclosed {cs : List Char} (h : (gap cs).unclosed = true) :
    (cs.drop (gap cs).length).head? = some '/' := by
  fun_induction gap cs with
  | case1 => exact absurd h nofun
  | case2 c cs hblank ih => exact (congrArg List.head? (Gap.drop_beyond c cs 0 _)).trans (ih h)
  | case3 c cs hblank hline n ih => exact (congrArg List.head? (Gap.drop_beyond c cs n _)).trans (ih h)
  | case4 c cs hblank hline hblock reach hclosed ih =>
    exact (congrArg List.head? (Gap.drop_beyond c cs (reach.length + 1) _)).trans (ih h)
  | case5 c cs hblank hline hblock reach hclosed =>
    obtain ⟨rfl, -⟩ : c = '/' ∧ cs.head? = some '*' := by simpa using hblock
    rfl
  | case6 => exact absurd h nofun

/-- Separators are part of the text. -/
theorem length_gap_le (cs : List Char) : (gap cs).length ≤ cs.length := by
  fun_induction gap cs with
  | case1 => exact Nat.le_refl 0
  | case2 c cs hblank ih =>
    rw [Gap.length_beyond, List.length_cons]
    omega
  | case3 c cs hblank hline n ih =>
    have hn : n ≤ cs.length := (List.takeWhile_prefix _).length_le
    rw [List.length_drop] at ih
    rw [Gap.length_beyond, List.length_cons]
    omega
  | case4 c cs hblank hline hblock reach hclosed ih =>
    have hreach := Enclosure.length_skip_le [.comment 0] (cs.drop 1)
    have hpos : cs ≠ [] := by
      rintro rfl
      exact absurd hblock (by simp)
    have hlength := List.length_pos_iff.mpr hpos
    have hreach' : reach.length ≤ (cs.drop 1).length := hreach
    rw [List.length_drop] at ih hreach'
    rw [Gap.length_beyond, List.length_cons]
    omega
  | case5 => exact Nat.zero_le _
  | case6 => exact Nat.zero_le _

/-- Behind separators no comment begins. -/
theorem head?_ne_of_gap {cs rest : List Char} (hclosed : (gap cs).unclosed = false)
    (hdrop : cs.drop (gap cs).length = '/' :: rest) : rest.head? ≠ some '*' := by
  fun_induction gap cs with
  | case1 => exact absurd hdrop nofun
  | case2 c cs hblank ih => exact ih hclosed ((Gap.drop_beyond c cs 0 _).symm.trans hdrop)
  | case3 c cs hblank hline n ih => exact ih hclosed ((Gap.drop_beyond c cs n _).symm.trans hdrop)
  | case4 c cs hblank hline hblock reach hreach ih =>
    exact ih hclosed ((Gap.drop_beyond c cs (reach.length + 1) _).symm.trans hdrop)
  | case5 => exact absurd hclosed nofun
  | case6 c cs hblank hline hblock =>
    obtain ⟨rfl, rfl⟩ := List.cons.inj hdrop
    exact fun hstar => hblock (by simp [hstar])

/-! ## The beginning of a file -/

/-- Whether characters are a byte order mark and an interpreter line, with a given text behind them. -/
inductive IsHeader (behind : List Char) : List Char → Prop
  | nil : IsHeader behind []
  | mark : IsHeader behind ['\uFEFF']
  | line {body : List Char} : '\n' ∉ body → EndsLine behind → IsHeader behind ('#' :: '!' :: body)
  | markAndLine {body : List Char} : '\n' ∉ body → EndsLine behind → IsHeader behind ('\uFEFF' :: '#' :: '!' :: body)

/-- A text that names an interpreter begins with the line that does. -/
theorem exists_interpreterLine {cs : List Char} (h : cs.take 2 = ['#', '!']) : ∃ body behind,
    cs = '#' :: '!' :: (body ++ behind) ∧ (cs.takeWhile (· ≠ '\n')).length = body.length + 2 ∧ '\n' ∉ body ∧
      EndsLine behind := by
  obtain ⟨body, behind, hsplit, hbody, hnewline, hend⟩ := exists_line (cs.drop 2)
  have hall : cs = '#' :: '!' :: (body ++ behind) := by
    rw [← hsplit, ← List.take_append_drop 2 cs, h]
    rfl
  refine ⟨body, behind, hall, ?_, hnewline, hend⟩
  rw [← hbody, hall]
  rfl

/-- What is measured at the beginning of a file is a byte order mark and an interpreter line. -/
theorem isHeader_headerLength (cs : List Char) :
    IsHeader (cs.drop (headerLength cs)) (cs.take (headerLength cs)) := by
  by_cases hmark : cs.head? = some '\uFEFF'
  · obtain ⟨rest, rfl⟩ := List.head?_eq_some_iff.mp hmark
    by_cases hline : rest.take 2 = ['#', '!']
    · obtain ⟨body, behind, rfl, hlength, hnewline, hend⟩ := exists_interpreterLine hline
      have hheader : headerLength ('\uFEFF' :: '#' :: '!' :: (body ++ behind)) = body.length + 3 := by
        have hsum : body.length + 3 = 1 + (body.length + 2) := by omega
        rw [hsum, ← hlength]
        rfl
      rw [hheader]
      show IsHeader ((body ++ behind).drop body.length) ('\uFEFF' :: '#' :: '!' :: (body ++ behind).take body.length)
      rw [List.drop_left, List.take_left]
      exact .markAndLine hnewline hend
    · have hheader : headerLength ('\uFEFF' :: rest) = 1 := by simp [headerLength, hline]
      rw [hheader]
      exact .mark
  · by_cases hline : cs.take 2 = ['#', '!']
    · obtain ⟨body, behind, rfl, hlength, hnewline, hend⟩ := exists_interpreterLine hline
      have hheader : headerLength ('#' :: '!' :: (body ++ behind)) = body.length + 2 := by
        rw [← hlength]
        exact Nat.zero_add _
      rw [hheader]
      show IsHeader ((body ++ behind).drop body.length) ('#' :: '!' :: (body ++ behind).take body.length)
      rw [List.drop_left, List.take_left]
      exact .line hnewline hend
    · have hheader : headerLength cs = 0 := by simp [headerLength, hmark, hline]
      rw [hheader]
      exact .nil

theorem IsHeader.newline_not_mem {behind cs : List Char} (h : IsHeader behind cs) : '\n' ∉ cs := by
  cases h with
  | nil => nofun
  | mark => decide
  | line hbody _ => simpa using hbody
  | markAndLine hbody _ => simpa using hbody

end ServiceCatalog
