import ServiceCatalog.Proofs.Parse.Calls

/-!
# Loops that end

A loop of the parser is its turn: a function that goes on with another state or answers.  `Loop size turn s r` says
that the loop ends with `r` if it begins with `s`, and that each turn that is followed by another one makes a size
smaller.  For the loops of the parser this is the number of tokens to come.  The turns are written as they stand, and
no size is looked at in them.

* `loop_manyWhile`: a repeated parser, if it moves on and has passed a token where it succeeds;
* `loop_closeGroups`, `loop_closeAngles`, `loop_skipMemberFrom`: the brackets, angle brackets and members that are
  passed.
-/

namespace ServiceCatalog

/-- Whether a loop ends with an answer, and each turn but the last one makes a size smaller. -/
inductive Loop {σ ρ : Type} (size : σ → Nat) (turn : σ → σ ⊕ ρ) : σ → ρ → Prop
  | stop {s : σ} {r : ρ} (h : turn s = .inr r) : Loop size turn s r
  | again {s t : σ} {r : ρ} (h : turn s = .inl t) (hless : size t < size s) (hrest : Loop size turn t r) :
      Loop size turn s r

namespace TokenParser

open Cursor

/-! ## Repeated parsers -/

section Many

variable {α : Type}

/-- One turn of a repeated parser. -/
def manyTurn (t : Cursor → Bool) (item : TokenParser α) :
    Cursor × List α → (Cursor × List α) ⊕ EStateM.Result ParseError Cursor (List α)
  | (c, found) =>
    if t c then
      match item c with
      | .ok a c' => .inl (c', found ++ [a])
      | .error e c' => .inr (.error e c')
    else .inr (.ok found c)

/-- A list read behind another one. -/
def prepend (found : List α) :
    EStateM.Result ParseError Cursor (List α) → EStateM.Result ParseError Cursor (List α)
  | .ok others c => .ok (found ++ others) c
  | .error e c => .error e c

@[simp] theorem prepend_nil (r : EStateM.Result ParseError Cursor (List α)) : prepend [] r = r := by cases r <;> rfl

theorem loop_manyWhile_from {t : Cursor → Bool} {item : TokenParser α} (hmoves : ∀ n, Forward n item)
    (hitem : Consumes (fun c => t c = true) item) {c : Cursor} (hc : c.Sound) (found : List α) :
    Loop (fun s => s.1.size) (manyTurn t item) (c, found) (prepend found (manyWhile t item c)) := by
  fun_induction manyWhile t item c generalizing found with
  | case1 c ht e c' hfirst => exact .stop (by simp [manyTurn, ht, hfirst, prepend])
  | case2 c ht a c' hfirst hless e c'' hothers ih =>
    refine .again (t := (c', found ++ [a])) (by simp [manyTurn, ht, hfirst]) hless ?_
    have hrest := ih ((precedes_of_ok hmoves hc hfirst).sound hc) (found ++ [a])
    rwa [hothers] at hrest
  | case3 c ht a c' hfirst hless others c'' hothers ih =>
    refine .again (t := (c', found ++ [a])) (by simp [manyTurn, ht, hfirst]) hless ?_
    have hrest := ih ((precedes_of_ok hmoves hc hfirst).sound hc) (found ++ [a])
    rw [hothers] at hrest
    simpa [prepend] using hrest
  | case4 c ht a c' hfirst hless => exact absurd (hitem c hc ht a c' hfirst) hless
  | case5 c ht => exact .stop (by simp [manyTurn, ht, prepend])

/-- Whether a repeated parser ends where it is called. -/
def ManyEnds (t : Cursor → Bool) (item : TokenParser α) (c : Cursor) : Prop :=
  Loop (fun s => s.1.size) (manyTurn t item) (c, []) (manyWhile t item c)

theorem loop_manyWhile {t : Cursor → Bool} {item : TokenParser α} (hmoves : ∀ n, Forward n item)
    (hitem : Consumes (fun c => t c = true) item) {c : Cursor} (hc : c.Sound) : ManyEnds t item c := by
  have h := loop_manyWhile_from hmoves hitem hc []
  rwa [prepend_nil] at h

end Many

/-! ## Brackets -/

/-- One token of a group whose brackets are due. -/
def groupTurn : List TokenKind × Cursor → (List TokenKind × Cursor) ⊕ EStateM.Result ParseError Cursor Unit
  | ([], c) => .inr (.ok () c)
  | (due :: outer, c) =>
    if c.kind = .eof then .inr (.error (.unexpectedEof c.peek.span) c)
    else match c.kind.closing? with
      | some closing => .inl (closing :: due :: outer, c.advance)
      | none =>
        if c.kind.isClosing then
          if c.kind = due then .inl (outer, c.advance) else .inr (.error (mismatched due c.peek) c)
        else .inl (due :: outer, c.advance)

/-- A group goes on behind a token as it does in front of it. -/
theorem closeGroups_of_succ {due due' : List TokenKind} {c : Cursor}
    (h : groupReach due c.rest = (groupReach due' c.advance.rest).succ) : closeGroups due c = closeGroups due' c.advance := by
  have hstop : c.skip (groupReach due c.rest).length = c.advance.skip (groupReach due' c.advance.rest).length := by
    rw [h, GroupReach.succ, advance_eq_skip, skip_skip, Nat.add_comm]
  simp only [closeGroups, hstop]
  rw [h, GroupReach.succ]

theorem loop_closeGroups {c : Cursor} (hc : c.Sound) (due : List TokenKind) :
    Loop (fun s => s.2.size) groupTurn (due, c) (closeGroups due c) := by
  induction hsize : c.size using Nat.strongRecOn generalizing c due with
  | _ size ih =>
    cases due with
    | nil => exact .stop (by simp [groupTurn, closeGroups, groupReach, skip_zero])
    | cons due outer =>
      by_cases hend : c.kind = .eof
      · exact .stop (by simp [groupTurn, closeGroups, groupReach, hc.rest_eq_nil hend, hend, skip_zero])
      · obtain ⟨t, ts, hrest, hpeek⟩ := hc.exists_cons hend
        have hkind : t.kind = c.kind := congrArg Token.kind hpeek.symm
        have hadvance : c.advance.rest = ts := by rw [advance, hrest]
        have hgo : ∀ due', groupTurn (due :: outer, c) = .inl (due', c.advance) →
            groupReach (due :: outer) c.rest = (groupReach due' c.advance.rest).succ →
            Loop (fun s => s.2.size) groupTurn (due :: outer, c) (closeGroups (due :: outer) c) := by
          intro due' hturn hreach
          have hless := size_advance_lt hc hend
          rw [closeGroups_of_succ hreach]
          exact .again hturn hless (ih _ (hsize ▸ hless) hc.advance due' rfl)
        cases hopening : c.kind.closing? with
        | some closing =>
          refine hgo (closing :: due :: outer) (by simp [groupTurn, hend, hopening]) ?_
          simp [hrest, hadvance, groupReach, hkind, hopening]
        | none =>
          by_cases hclosing : c.kind.isClosing = true
          · by_cases hdue : c.kind = due
            · subst hdue
              refine hgo outer (by simp [groupTurn, hend, hopening, hclosing]) ?_
              simp [hrest, hadvance, groupReach, hkind, hopening, hclosing]
            · refine .stop ?_
              simp [groupTurn, closeGroups, groupReach, hrest, hkind, hend, hopening, hclosing, hdue, hpeek, skip_zero]
          · refine hgo (due :: outer) (by simp [groupTurn, hend, hopening, hclosing]) ?_
            simp [hrest, hadvance, groupReach, hkind, hopening, hclosing]

/-- One token or group of a list in angle brackets. -/
def anglesTurn (opening : Span) : Nat × Cursor → (Nat × Cursor) ⊕ EStateM.Result ParseError Cursor Unit
  | (depth, c) =>
    if depth = 0 then .inr (.ok () c)
    else
      match angleDepth depth c.kind with
      | none => .inr (.error (unclosedAngle opening) c)
      | some depth' =>
        match skipOne c with
        | .error e c' => .inr (.error e c')
        | .ok _ c' => .inl (depth', c')

theorem loop_closeAngles {c : Cursor} (hc : c.Sound) (opening : Span) (depth : Nat) :
    Loop (fun s => s.2.size) (anglesTurn opening) (depth, c) (closeAngles opening depth c) := by
  fun_induction closeAngles opening depth c with
  | case1 c => exact .stop (by simp [anglesTurn])
  | case2 depth c hdepth hnext => exact .stop (by simp [anglesTurn, hdepth, hnext])
  | case3 depth c hdepth depth' hnext e c' hstep => exact .stop (by simp [anglesTurn, hdepth, hnext, hstep])
  | case4 depth c hdepth depth' hnext _ c' hstep hless ih =>
    refine .again (t := (depth', c')) (by simp [anglesTurn, hdepth, hnext, hstep]) hless (ih ?_)
    exact (precedes_of_ok forward_skipOne hc hstep).sound hc
  | case5 depth c hdepth depth' hnext _ c' hstep hless =>
    have hend : c.kind ≠ .eof := fun hkind => by
      rw [hkind] at hnext
      contradiction
    exact absurd (size_skipOne_lt hc hend hstep) hless

/-! ## Members that are passed -/

/-- One token or group of a member that is passed, with the errors in it. -/
def skipMemberTurn : (Bool × Cursor) × List ParseError → ((Bool × Cursor) × List ParseError) ⊕ List ParseError × Cursor
  | ((first, c), errors) =>
    match c.kind with
    | .eof | .rightBrace => .inr (errors, c)
    | .semicolon => .inr (errors, c.advance)
    | kind =>
      if !first && c.isAtMember then .inr (errors, c)
      else if kind = .rightParen || kind = .rightBracket then
        .inl ((false, c.advance), errors ++ [strayBracket c.peek])
      else
        match skipOne c with
        | .error e c' => .inr (errors ++ [e], c')
        | .ok _ c' => .inl ((false, c'), errors)

/-- A turn at a token that is no mark at which every member ends. -/
theorem skipMemberTurn_inside {first : Bool} {c : Cursor} {errors : List ParseError} (hend : c.kind ≠ .eof)
    (hbrace : c.kind ≠ .rightBrace) (hsemicolon : c.kind ≠ .semicolon) :
    skipMemberTurn ((first, c), errors) =
      if !first && c.isAtMember then .inr (errors, c)
      else if c.kind = .rightParen || c.kind = .rightBracket then
        .inl ((false, c.advance), errors ++ [strayBracket c.peek])
      else
        match skipOne c with
        | .error e c' => .inr (errors ++ [e], c')
        | .ok _ c' => .inl ((false, c'), errors) := by
  simp only [skipMemberTurn]

theorem loop_skipMemberFrom {c : Cursor} (hc : c.Sound) (first : Bool) (errors : List ParseError) :
    Loop (fun s => s.1.2.size) skipMemberTurn ((first, c), errors)
      (errors ++ (skipMemberFrom first c).1, (skipMemberFrom first c).2) := by
  fun_induction skipMemberFrom first c generalizing errors with
  | case1 first c hkind => exact .stop (by simp [skipMemberTurn, hkind])
  | case2 first c hkind => exact .stop (by simp [skipMemberTurn, hkind])
  | case3 first c hkind => exact .stop (by simp [skipMemberTurn, hkind])
  | case4 first c hmember hend hbrace hsemicolon =>
    exact .stop (by rw [skipMemberTurn_inside hend hbrace hsemicolon, if_pos hmember]; simp)
  | case5 first c hmember c' others place hrest hend hbrace hsemicolon hclosing ih =>
    have hless : c'.size < c.size := size_advance_lt hc hend
    rw [dif_pos hless] at hrest
    refine .again (t := ((false, c'), errors ++ [strayBracket c.peek])) ?_ hless ?_
    · rw [skipMemberTurn_inside hend hbrace hsemicolon, if_neg hmember, if_pos hclosing]
    · have hloop := ih hless hc.advance (errors ++ [strayBracket c.peek])
      rw [hrest] at hloop
      simpa using hloop
  | case6 first c hmember e c' hstep hend hbrace hsemicolon hclosing =>
    refine .stop ?_
    rw [skipMemberTurn_inside hend hbrace hsemicolon, if_neg hmember, if_neg hclosing, hstep]
  | case7 first c hmember _ c' hstep hless hend hbrace hsemicolon hclosing ih =>
    refine .again (t := ((false, c'), errors)) ?_ hless (ih ((precedes_of_ok forward_skipOne hc hstep).sound hc) errors)
    rw [skipMemberTurn_inside hend hbrace hsemicolon, if_neg hmember, if_neg hclosing, hstep]
  | case8 first c hmember _ c' hstep hless hend => exact absurd (size_skipOne_lt hc hend hstep) hless

/-- A member is passed forwards, also where something in it is an error. -/
theorem precedes_skipMemberFrom (first : Bool) (c : Cursor) : c.Precedes (skipMemberFrom first c).2 := by
  fun_induction skipMemberFrom first c with
  | case1 | case2 | case4 => exact .refl
  | case3 => exact .advance
  | case5 first c hmember c' others place hrest hend hbrace hsemicolon hclosing ih =>
    refine Precedes.advance.trans ?_
    split at hrest
    · next hless =>
      have hmoves := ih hless
      rwa [hrest] at hmoves
    · cases hrest
      exact .refl
  | case6 first c hmember e c' hone => exact precedes_of_skipOne_eq hone
  | case7 first c hmember _ c' hone hless hend hbrace hsemicolon hclosing ih =>
    exact (precedes_of_skipOne_eq hone).trans ih
  | case8 first c hmember _ c' hone => exact precedes_of_skipOne_eq hone

/-- A member has a token where members do not end, also if it is an error. -/
theorem size_snd_skipMember_lt {c : Cursor} (hc : c.Sound) (hend : c.kind ≠ .eof) (hbrace : c.kind ≠ .rightBrace) :
    (skipMember c).2.size < c.size := by
  have hless := size_advance_lt hc hend
  have hone := size_stop_skipOne_lt hc hend
  unfold skipMember
  rw [skipMemberFrom.eq_def]
  split
  · contradiction
  · contradiction
  · exact hless
  · rw [if_neg (by simp)]
    split
    · simp only [hless, if_true]
      exact Nat.lt_of_le_of_lt (precedes_skipMemberFrom false c.advance).size_le hless
    · split
      · next e c' h =>
        rw [h] at hone
        exact hone
      · next c' h =>
        rw [h] at hone
        split
        · exact Nat.lt_of_le_of_lt (precedes_skipMemberFrom false c').size_le hone
        · exact hone

end TokenParser

end ServiceCatalog
