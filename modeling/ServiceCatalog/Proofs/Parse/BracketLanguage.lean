import ServiceCatalog.Proofs.Parse.AcrossTypes

/-!
# The language of brackets

`skipGroup` is a stack machine over three kinds of brackets.  Here it is compared with the grammar of nested text:
`IsGroup` says which runs of tokens are one nested group, and `Begins due ts` which are the beginning of one, behind
which the brackets `due` are to be closed, the innermost first.  Both are over `Run false true`, the nested runs.

One token more is one step of the grammar (`Begins.opens`, `Begins.plain`, `Begins.closes`), and by induction on the
tokens to come the machine stops as the grammar says (`groupReach_stops`).  Conversely the machine passes what the
grammar describes (`groupReach_begins`), and so there is at most one description of what it passes.

* `skipGroup_eq_ok_iff`, `skipGroup_eq_error_iff`: the machine accepts a nested group and nothing else, and where it
  fails it stands at the first bracket that closes another one than the innermost open one, or at the end.
* `length_le_of_run`: the group is the shortest nested run there.
-/

namespace ServiceCatalog

/-! ## Groups and their beginnings -/

/-- A bracket that closes does not open. -/
theorem TokenKind.closing?_of_isClosing {k : TokenKind} (h : k.isClosing = true) : k.closing? = none := by
  cases k <;> first | rfl | contradiction

/-- Whether a run of tokens is one nested group: a bracket, nested text, and the bracket that closes the first one. -/
def IsGroup (ts : List Token) : Prop :=
  ∃ opening inner closing, ts = opening :: (inner ++ [closing]) ∧ opening.kind.closing? = some closing.kind ∧
    Run false true inner

/-- The beginnings of a group.  Each bracket that opened and is not closed has nested text behind it; `due` are those
that close them, the innermost first. -/
inductive Begins : List TokenKind → List Token → Prop
  | outermost {opening : Token} {closing : TokenKind} {inner : List Token}
      (hpair : opening.kind.closing? = some closing) (hinner : Run false true inner) :
      Begins [closing] (opening :: inner)
  | inside {due : List TokenKind} {ts : List Token} {opening : Token} {closing : TokenKind} {inner : List Token}
      (hts : Begins due ts) (hpair : opening.kind.closing? = some closing) (hinner : Run false true inner) :
      Begins (closing :: due) (ts ++ opening :: inner)

namespace Begins

variable {due : List TokenKind} {ts us : List Token} {t : Token} {k : TokenKind}

/-- Nested text behind a beginning leaves the brackets that are due. -/
theorem append (h : Begins due ts) (hus : Run false true us) : Begins due (ts ++ us) := by
  cases h with
  | outermost hpair hinner => exact outermost hpair (hinner.append hus)
  | inside hts hpair hinner =>
    rw [List.append_assoc, List.cons_append]
    exact inside hts hpair (hinner.append hus)

/-- A bracket that opens makes the one that closes it due. -/
theorem opens (h : Begins due ts) (hpair : t.kind.closing? = some k) : Begins (k :: due) (ts ++ [t]) :=
  h.inside hpair .nil

/-- A token that is no bracket changes nothing. -/
theorem plain (h : Begins due ts) (hopening : t.kind.closing? = none) (hclosing : ¬t.kind.isClosing = true) :
    Begins due (ts ++ [t]) :=
  h.append (.plain (Bool.eq_false_iff.mpr fun hkind => by
    obtain ⟨k, hk⟩ := TokenKind.isOpening_iff.mp hkind
    exact absurd (hopening.symm.trans hk) (Option.some_ne_none k).symm) (Bool.eq_false_iff.mpr hclosing))

/-- The bracket that is due completes the group, or makes the next one due. -/
theorem closes {outer : List TokenKind} (h : Begins (t.kind :: outer) ts) :
    (outer = [] ∧ IsGroup (ts ++ [t])) ∨ Begins outer (ts ++ [t]) := by
  cases h with
  | @outermost opening _ inner hpair hinner => exact .inl ⟨rfl, opening, inner, t, rfl, hpair, hinner⟩
  | @inside _ past opening _ inner hts hpair hinner =>
    rw [List.append_assoc]
    exact .inr (hts.append (.groupOf hpair (fun _ => rfl) hinner))

/-- A beginning has a bracket due, and a first token, which opens. -/
theorem exists_cons (h : Begins due ts) : ∃ k outer opening others, due = k :: outer ∧ ts = opening :: others ∧
    opening.kind.isOpening = true := by
  induction h with
  | @outermost opening closing inner hpair _ =>
    exact ⟨closing, [], opening, inner, rfl, rfl, TokenKind.isOpening_iff.mpr ⟨closing, hpair⟩⟩
  | @inside due ts opening closing inner _ hpair _ ih =>
    obtain ⟨_, _, first, others, -, rfl, hfirst⟩ := ih
    exact ⟨closing, due, first, others ++ opening :: inner, rfl, rfl, hfirst⟩

end Begins

/-! ## Where the machine stops -/

/-- How a reading of brackets ends that passed tokens and stands in front of others, as the grammar says it. -/
inductive Stops (passed : List Token) : List Token → GroupEnd → Prop
  | closed {rest : List Token} (hgroup : IsGroup passed) : Stops passed rest .closed
  | unclosed {due : List TokenKind} (hpassed : Begins due passed) : Stops passed [] .unclosed
  | mismatched {due : TokenKind} {outer : List TokenKind} {found : Token} {rest : List Token}
      (hpassed : Begins (due :: outer) passed) (hclosing : found.kind.isClosing = true) (hdue : found.kind ≠ due) :
      Stops passed (found :: rest) (.mismatched due found)

theorem Stops.exists_cons {passed rest : List Token} {ending : GroupEnd} (h : Stops passed rest ending) :
    ∃ opening others, passed = opening :: others ∧ opening.kind.isOpening = true := by
  cases h with
  | closed hgroup =>
    obtain ⟨opening, inner, closing, rfl, hpair, -⟩ := hgroup
    exact ⟨opening, inner ++ [closing], rfl, TokenKind.isOpening_iff.mpr ⟨_, hpair⟩⟩
  | unclosed hpassed | mismatched hpassed =>
    obtain ⟨-, -, opening, others, -, rfl, hopening⟩ := hpassed.exists_cons
    exact ⟨opening, others, rfl, hopening⟩

/-- The rest of a reading, as what is passed and what is left of the tokens to come. -/
def GroupReach.StopsBehind (r : GroupReach) (past ts : List Token) : Prop :=
  r.length ≤ ts.length ∧ Stops (past ++ ts.take r.length) (ts.drop r.length) r.ending

/-- What stops behind one more token stops behind the tokens before it too. -/
theorem GroupReach.StopsBehind.succ {r : GroupReach} {past ts : List Token} {t : Token}
    (h : r.StopsBehind (past ++ [t]) ts) : r.succ.StopsBehind past (t :: ts) := by
  obtain ⟨hlength, hstops⟩ := h
  refine ⟨Nat.succ_le_succ hlength, ?_⟩
  rw [List.append_assoc] at hstops
  exact hstops

/-- **Behind a beginning, the machine stops as the grammar says.** -/
theorem groupReach_stops {due : List TokenKind} {past : List Token} (h : Begins due past) (ts : List Token) :
    (groupReach due ts).StopsBehind past ts := by
  induction ts generalizing due past with
  | nil =>
    obtain ⟨k, outer, -, -, rfl, -, -⟩ := h.exists_cons
    exact ⟨Nat.le_refl 0, .unclosed (h.append .nil)⟩
  | cons t ts ih =>
    obtain ⟨k, outer, -, -, rfl, -, -⟩ := h.exists_cons
    rw [groupReach]
    cases hopening : t.kind.closing? with
    | some k' => exact (ih (h.opens hopening)).succ
    | none =>
      simp only
      by_cases hclosing : t.kind.isClosing = true
      · rw [if_pos hclosing]
        by_cases hdue : t.kind = k
        · rw [if_pos hdue]
          subst hdue
          rcases h.closes with ⟨rfl, hgroup⟩ | houter
          · rw [groupReach]
            exact ⟨Nat.succ_le_succ (Nat.zero_le _), .closed hgroup⟩
          · exact (ih houter).succ
        · rw [if_neg hdue]
          exact ⟨Nat.zero_le _, .mismatched (h.append .nil) hclosing hdue⟩
      · rw [if_neg hclosing]
        exact (ih (h.plain hopening hclosing)).succ

/-- Behind the first bracket of a beginning, the machine passes the beginning and goes on with what is due. -/
theorem groupReach_begins {due : List TokenKind} {ts : List Token} (h : Begins due ts) :
    ∃ opening others k, ts = opening :: others ∧ opening.kind.closing? = some k ∧ ∀ rest,
      groupReach [k] (others ++ rest) =
        ⟨others.length + (groupReach due rest).length, (groupReach due rest).ending⟩ := by
  induction h with
  | @outermost opening k inner hpair hinner =>
    exact ⟨opening, inner, k, rfl, hpair, groupReach_append hinner k []⟩
  | @inside due ts opening' k' inner hts hpair hinner ih =>
    obtain ⟨opening, others, k, rfl, hfirst, hreach⟩ := ih
    obtain ⟨due', outer, -, -, rfl, -, -⟩ := hts.exists_cons
    refine ⟨opening, others ++ opening' :: inner, k, rfl, hfirst, fun rest => ?_⟩
    rw [List.append_assoc, hreach, List.cons_append, groupReach, hpair]
    simp only [GroupReach.succ, groupReach_append hinner, List.length_append, List.length_cons, GroupReach.mk.injEq,
      and_true]
    omega

/-- **The machine stops wherever the grammar says so.** -/
theorem groupReach_of_stops {opening : Token} {others rest : List Token} {k : TokenKind} {ending : GroupEnd}
    (hpair : opening.kind.closing? = some k) (h : Stops (opening :: others) rest ending) :
    groupReach [k] (others ++ rest) = ⟨others.length, ending⟩ := by
  cases h with
  | closed hgroup =>
    obtain ⟨opening', inner, closing, hsplit, hpair', hinner⟩ := hgroup
    obtain ⟨rfl, rfl⟩ := List.cons.inj hsplit
    obtain rfl : k = closing.kind := Option.some.inj (hpair.symm.trans hpair')
    have hclosing : closing.kind.isClosing = true := TokenKind.isClosing_of_closing? hpair
    rw [List.append_assoc, groupReach_append hinner, List.singleton_append, groupReach,
      TokenKind.closing?_of_isClosing hclosing]
    simp only [hclosing, if_true, groupReach, GroupReach.succ, List.length_append, List.length_singleton]
  | unclosed hpassed =>
    obtain ⟨_, _, k', hsplit, hpair', hreach⟩ := groupReach_begins hpassed
    obtain ⟨rfl, rfl⟩ := List.cons.inj hsplit
    obtain rfl : k = k' := Option.some.inj (hpair.symm.trans hpair')
    obtain ⟨due, outer, -, -, rfl, -, -⟩ := hpassed.exists_cons
    rw [hreach, groupReach, Nat.add_zero]
  | @mismatched due outer found rest hpassed hclosing hdue =>
    obtain ⟨_, _, k', hsplit, hpair', hreach⟩ := groupReach_begins hpassed
    obtain ⟨rfl, rfl⟩ := List.cons.inj hsplit
    obtain rfl : k = k' := Option.some.inj (hpair.symm.trans hpair')
    rw [hreach, groupReach, TokenKind.closing?_of_isClosing hclosing]
    simp only [hclosing, if_true, if_neg hdue, Nat.add_zero]

/-! ## The parser of a group -/

namespace TokenParser

/-- What the parser of a group answers where the reading of brackets stopped. -/
def groupAnswer (stop : Cursor) : GroupEnd → EStateM.Result ParseError Cursor Unit
  | .closed => .ok () stop
  | .unclosed => .error (.unexpectedEof stop.peek.span) stop
  | .mismatched due found => .error (mismatched due found) stop

theorem closeGroups_eq (due : List TokenKind) (c : Cursor) :
    closeGroups due c = groupAnswer (c.skip (groupReach due c.rest).length) (groupReach due c.rest).ending := by
  rw [closeGroups]
  cases (groupReach due c.rest).ending <;> rfl

variable {c : Cursor}

/-- A group is read from behind its first bracket. -/
theorem skipGroup_eq {opening : Token} {ts : List Token} {k : TokenKind} (hrest : c.rest = opening :: ts)
    (hpair : opening.kind.closing? = some k) :
    skipGroup c = groupAnswer (c.skip ((groupReach [k] ts).length + 1)) (groupReach [k] ts).ending := by
  obtain ⟨previous, rest, eof⟩ := c
  obtain rfl : rest = opening :: ts := hrest
  have hclose : skipGroup ⟨previous, opening :: ts, eof⟩ = closeGroups [k] ⟨some opening, ts, eof⟩ := by
    simp only [skipGroup, bind, EStateM.bind, next, Cursor.peek_cons, Cursor.advance_cons, hpair]
  rw [hclose, closeGroups_eq, Nat.add_comm, ← Cursor.skip_skip, ← Cursor.advance_eq_skip, Cursor.advance_cons]

/-- The parser answers what the grammar says about the tokens to come. -/
theorem skipGroup_of_stops {passed rest : List Token} {ending : GroupEnd} (hrest : c.rest = passed ++ rest)
    (h : Stops passed rest ending) : skipGroup c = groupAnswer (c.skip passed.length) ending := by
  obtain ⟨opening, others, rfl, hopening⟩ := h.exists_cons
  obtain ⟨k, hpair⟩ := TokenKind.isOpening_iff.mp hopening
  rw [skipGroup_eq hrest hpair]
  simp only [List.append_eq, groupReach_of_stops hpair h, List.length_cons]

/-- The grammar says something about the tokens to come behind a bracket that opens. -/
theorem exists_stops (hc : c.Sound) (hopening : c.kind.isOpening = true) :
    ∃ passed rest ending, c.rest = passed ++ rest ∧ Stops passed rest ending := by
  obtain ⟨opening, ts, hrest, hpeek⟩ := hc.exists_cons fun h => by
    rw [h] at hopening
    contradiction
  obtain ⟨k, hpair⟩ := TokenKind.isOpening_iff.mp (hpeek ▸ hopening : opening.kind.isOpening = true)
  obtain ⟨-, hstops⟩ := groupReach_stops (.outermost hpair .nil) ts
  refine ⟨_, _, _, ?_, hstops⟩
  rw [hrest, List.append_assoc, List.take_append_drop, List.singleton_append]

/-- A group is accepted, and nothing else is. -/
theorem skipGroup_eq_ok_iff (hc : c.Sound) (hopening : c.kind.isOpening = true) (c' : Cursor) :
    skipGroup c = .ok () c' ↔
      ∃ group rest, c.rest = group ++ rest ∧ IsGroup group ∧ c' = c.skip group.length := by
  constructor
  · intro hok
    obtain ⟨passed, rest, ending, hrest, hstops⟩ := exists_stops hc hopening
    rw [skipGroup_of_stops hrest hstops] at hok
    cases hstops with
    | closed hgroup =>
      cases hok
      exact ⟨passed, rest, hrest, hgroup, rfl⟩
    | unclosed => contradiction
    | mismatched => contradiction
  · rintro ⟨group, rest, hrest, hgroup, rfl⟩
    rw [skipGroup_of_stops hrest (.closed hgroup), groupAnswer]

/-- The parser fails at the first bracket that closes another one than the innermost open one, or at the end. -/
theorem skipGroup_eq_error_iff (hc : c.Sound) (hopening : c.kind.isOpening = true) (e : ParseError) (c' : Cursor) :
    skipGroup c = .error e c' ↔
      (∃ passed due outer found rest, c.rest = passed ++ found :: rest ∧ Begins (due :: outer) passed ∧
        found.kind.isClosing = true ∧ found.kind ≠ due ∧ e = mismatched due found ∧ c' = c.skip passed.length) ∨
      ∃ due, Begins due c.rest ∧ e = .unexpectedEof c.eof.span ∧ c' = c.skip c.size := by
  have hend : (c.skip c.rest.length).peek = c.eof := by
    simp [Cursor.peek, Cursor.peekNth, Cursor.skip]
  constructor
  · intro herror
    obtain ⟨passed, rest, ending, hrest, hstops⟩ := exists_stops hc hopening
    rw [skipGroup_of_stops hrest hstops] at herror
    cases hstops with
    | closed => contradiction
    | unclosed hpassed =>
      rw [List.append_nil] at hrest
      rw [groupAnswer, ← hrest, hend] at herror
      cases herror
      exact .inr ⟨_, hrest ▸ hpassed, rfl, rfl⟩
    | mismatched hpassed hclosing hdue =>
      cases herror
      exact .inl ⟨_, _, _, _, _, hrest, hpassed, hclosing, hdue, rfl, rfl⟩
  · rintro (⟨passed, due, outer, found, rest, hrest, hpassed, hclosing, hdue, rfl, rfl⟩ | ⟨due, hpassed, rfl, rfl⟩)
    · rw [skipGroup_of_stops hrest (.mismatched hpassed hclosing hdue), groupAnswer]
    · rw [skipGroup_of_stops (List.append_nil _).symm (.unclosed hpassed), groupAnswer, hend, Cursor.size]

/-- Of the nested runs that begin with a bracket, the group of that bracket is the shortest. -/
theorem length_le_of_run {group rest run others : List Token} (hgroup : c.rest = group ++ rest) (h : IsGroup group)
    (hrun : c.rest = run ++ others) (hnested : Run false true run) (hne : run ≠ []) : group.length ≤ run.length := by
  obtain ⟨opening, inner, closing, rfl, hpair, hinner⟩ := h
  cases hnested with
  | nil => contradiction
  | @single _ _ t ts hopening _ _ =>
    obtain ⟨rfl, -⟩ : opening = t ∧ _ := List.cons.inj (hgroup.symm.trans hrun)
    rw [TokenKind.isOpening_iff.mpr ⟨_, hpair⟩] at hopening
    contradiction
  | @group _ _ opening' closing' inner' ts hpair' _ hinner' _ =>
    -- both groups begin with the same bracket, so the parser passes both, and they are the same
    have hrun' : c.rest = opening' :: (inner' ++ [closing']) ++ (ts ++ others) := by
      rw [hrun]
      simp
    have hgo := skipGroup_of_stops hgroup (.closed ⟨opening, inner, closing, rfl, hpair, hinner⟩)
    rw [skipGroup_of_stops hrun' (.closed ⟨opening', inner', closing', rfl, hpair', hinner'⟩), groupAnswer,
      groupAnswer, EStateM.Result.ok.injEq] at hgo
    have hsize := congrArg Cursor.size hgo.2
    have hlength := congrArg List.length hgroup
    have hlength' := congrArg List.length hrun'
    rw [Cursor.size_skip, Cursor.size_skip, Cursor.size] at hsize
    simp only [List.length_append, List.length_cons, List.length_nil] at hsize hlength hlength' ⊢
    omega

/-- **Balanced skipping accepts exactly the bracket language.** -/
theorem skipGroup_accepts_exactly_groups {c : Cursor} (hc : c.Sound) (hopening : c.kind.isOpening = true) :
    (∀ c', skipGroup c = .ok () c' ↔
      ∃ group rest, c.rest = group ++ rest ∧ IsGroup group ∧ c' = c.skip group.length) ∧
    (∀ group rest run others, c.rest = group ++ rest → IsGroup group → c.rest = run ++ others → Run false true run →
      run ≠ [] → group.length ≤ run.length) ∧
    ∀ e c', skipGroup c = .error e c' ↔
      (∃ passed due outer found rest, c.rest = passed ++ found :: rest ∧ Begins (due :: outer) passed ∧
        found.kind.isClosing = true ∧ found.kind ≠ due ∧ e = mismatched due found ∧ c' = c.skip passed.length) ∨
      ∃ due, Begins due c.rest ∧ e = .unexpectedEof c.eof.span ∧ c' = c.skip c.size :=
  ⟨skipGroup_eq_ok_iff hc hopening, fun _ _ _ _ => length_le_of_run, skipGroup_eq_error_iff hc hopening⟩

/-- The tokens of `( a ]`. -/
def crossed : Cursor :=
  ⟨none, [⟨.leftParen, "(", .point 1 1, false⟩, ⟨.identifier, "a", .point 1 3, false⟩,
    ⟨.rightBracket, "]", .point 1 5, false⟩], ⟨.eof, "", .point 1 6, false⟩⟩

theorem skipGroup_crossed :
    crossed.Sound ∧ crossed.kind.isOpening = true ∧
      skipGroup crossed = .error (mismatched .rightParen ⟨.rightBracket, "]", .point 1 5, false⟩) (crossed.skip 2) := by
  have hc : crossed.Sound := ⟨rfl, by decide⟩
  have hopening : crossed.kind.isOpening = true := rfl
  refine ⟨hc, hopening, ((skipGroup_accepts_exactly_groups hc hopening).2.2 _ _).mpr (.inl ?_)⟩
  exact ⟨_, .rightParen, [], _, [], rfl, .outermost rfl (.plain rfl rfl), rfl, by decide, rfl, rfl⟩

end TokenParser

end ServiceCatalog
