import ServiceCatalog.Proofs.Parse.Buffered
import ServiceCatalog.Proofs.Parse.Progress

/-!
# Loops over a buffer

Over the buffer there is one loop, `Parsing.repeated`, which asks behind each item whether another one follows.  The
token parsers have several, and they ask in front of an item: a comma is passed with the item behind it, and behind the
last item on its own.  `Repeats` is the equation that they have in common: it says what a loop does up to the end of its
first turn, and leaves the rest to the loop itself.  Whatever has the equation answers what the loop over the buffer
answers (`Repeats.mirrors`), and that is the only induction.

* `mirrors_manyWhile`, `mirrors_separated`, `mirrors_commaList`: the loops of the constructs;
* `mirrors_skipBalanced`: bracketed groups, which a token parser passes at one go;
* `mirrors_skipArgument`: the tokens of an argument that is kept as text.
-/

namespace ServiceCatalog

namespace TokenParser

variable {α : Type}

/-- Items, at least one, with a token between them at which a test holds. -/
def separated (p : Cursor → Bool) (item : TokenParser α) : TokenParser (List α) := do
  let first ← item
  let others ← manyWhile p (do let _ ← next; item)
  return first :: others

/-- Passes the next token if a test holds, and says whether it did. -/
def eatIf (p : Cursor → Bool) : TokenParser Bool := do
  if ← test p then
    let _ ← next
    return true
  else return false

theorem eat_eq_eatIf (k : TokenKind) : eat k = eatIf (·.isAt k) := by
  funext c
  rw [eat, eatIf, bind_eq_match, test]
  cases c.isAt k <;> rfl

end TokenParser

namespace BufferedParser

open TokenParser (stop bind_eq_match prepend separated eatIf groupTurn ne_eof_of_isAt)

variable {b : BufferedParser} {c c' : Cursor}

/-! ## Loops -/

section Repeated

variable {α : Type} {item' : Parsing α} {item : TokenParser α} {more' : Parsing Bool} {more : TokenParser Bool}
  {p' : BufferedParser → Bool} {p : Cursor → Bool}

/-- Whether a token parser of a list is a loop: while a test holds it reads an item, and goes on if another one is to
follow and a token has been passed. -/
def Repeats (b : BufferedParser) (p : Cursor → Bool) (item : TokenParser α) (more : TokenParser Bool)
    (loop : TokenParser (List α)) : Prop :=
  ∀ c, b.Holds c → loop c =
    if p c then
      match item c with
      | .error e c' => .error e c'
      | .ok a c' =>
        match more c' with
        | .error e c'' => .error e c''
        | .ok goesOn c'' => if goesOn && c''.size < c.size then prepend [a] (loop c'') else .ok [a] c''
    else .ok [] c

theorem stop_prepend (found : List α) (r : EStateM.Result ParseError Cursor (List α)) :
    stop (prepend found r) = stop r := by cases r <;> rfl

/-- Loops over items that answer the same answer the same, by induction on the number of tokens to come. -/
theorem Repeats.mirrors {loop : TokenParser (List α)} (hloop : b.Repeats p item more loop) (hp : b.Tells p' p)
    (hitem : ∀ c, b.Holds c → p c = true → b.MirrorsAt c c item' item) (hmore : b.Mirrors more' more) :
    b.Mirrors (Parsing.repeated p' item' more') loop := by
  intro c hc
  induction hsize : c.size using Nat.strongRecOn generalizing c with
  | _ size ih =>
    unfold MirrorsAt
    rw [Parsing.repeated, hloop c hc, hp c hc]
    by_cases hpc : p c = true
    · obtain ⟨heq, hmoves⟩ := hitem c hc hpc
      rw [if_pos hpc, if_pos hpc, bind_eq_match, heq]
      cases hfirst : item c with
      | error e c' =>
        rw [hfirst] at hmoves
        exact ⟨rfl, hmoves⟩
      | ok a c' =>
        rw [hfirst] at hmoves
        obtain ⟨heq', hmoves'⟩ : b.MirrorsAt c c' more' more := hmore.since hmoves hc
        simp only [lift]
        rw [bind_eq_match, heq']
        cases hfound : more c' with
        | error e c'' =>
          rw [hfound] at hmoves'
          exact ⟨rfl, hmoves'⟩
        | ok goesOn c'' =>
          rw [hfound] at hmoves'
          have hc'' : b.Holds c'' := hc.of_precedes hmoves'
          show (if (goesOn && decide ((b.goTo c'').remaining < (b.goTo c).remaining)) = true then _ else _) = _ ∧ _
          simp only [hc.remaining_lt_iff hc'']
          by_cases hgo : (goesOn && decide (c''.size < c.size)) = true
          · have hless : c''.size < c.size := of_decide_eq_true (Bool.and_eq_true_iff.mp hgo).2
            obtain ⟨hrest, hrestMoves⟩ := ih c''.size (hsize ▸ hless) c'' hc'' rfl
            rw [if_pos hgo, if_pos hgo, hrest, stop_prepend]
            refine ⟨?_, hmoves'.trans hrestMoves⟩
            cases loop c'' <;> rfl
          · rw [if_neg hgo, if_neg hgo]
            exact ⟨rfl, hmoves'⟩
    · rw [if_neg hpc, if_neg hpc]
      exact ⟨rfl, .refl⟩

/-- A loop that goes on behind each item. -/
theorem Repeats.of_turn {loop : TokenParser (List α)} (hloop : ∀ c, b.Holds c → loop c =
    if p c then
      match item c with
      | .error e c' => .error e c'
      | .ok a c' => if c'.size < c.size then prepend [a] (loop c') else .ok [a] c'
    else .ok [] c) : b.Repeats p item (pure true) loop := by
  intro c hc
  refine (hloop c hc).trans ?_
  cases item c with
  | error e c' => rfl
  | ok a c' =>
    have hguard : (true && decide (c'.size < c.size)) = true ↔ c'.size < c.size := by simp
    show _ = if p c = true then (if (true && decide (c'.size < c.size)) = true then _ else _) else _
    simp only [hguard]

theorem repeats_manyWhile : b.Repeats p item (pure true) (TokenParser.manyWhile p item) := by
  refine .of_turn fun c _ => ?_
  rw [TokenParser.manyWhile.eq_def]
  cases item c with
  | error e c' => rfl
  | ok a c' =>
    dsimp only
    cases TokenParser.manyWhile p item c' <;> rfl

/-- A parser that is repeated need only answer the same where it is called. -/
theorem mirrors_manyWhile (hp : b.Tells p' p) (hitem : ∀ c, b.Holds c → p c = true → b.MirrorsAt c c item' item) :
    b.Mirrors (Parsing.manyWhile p' item') (TokenParser.manyWhile p item) :=
  repeats_manyWhile.mirrors hp hitem (.pure true)

/-! ### Items with something between them -/

theorem separated_eq (c : Cursor) : separated p item c =
    match item c with
    | .error e c' => .error e c'
    | .ok a c' => prepend [a] (TokenParser.manyWhile p (do let _ ← TokenParser.next; item) c') := by
  refine (bind_eq_match _ _ _).trans ?_
  cases item c with
  | error e c' => rfl
  | ok a c' =>
    refine (bind_eq_match _ _ _).trans ?_
    dsimp only
    cases TokenParser.manyWhile p (do let _ ← TokenParser.next; item) c' <;> rfl

/-- What stands behind separated items stands behind the last of them. -/
theorem separated_bind {β : Type} (f : List α → TokenParser β) : (separated p item >>= f) = (do
    let first ← item
    let others ← TokenParser.manyWhile p (do let _ ← TokenParser.next; item)
    f (first :: others)) := by
  funext c
  rw [bind_eq_match, bind_eq_match, separated_eq]
  cases item c with
  | error e c' => rfl
  | ok a c' =>
    refine Eq.trans ?_ (bind_eq_match _ _ _).symm
    dsimp only
    cases TokenParser.manyWhile p (do let _ ← TokenParser.next; item) c' <;> rfl

/-- Behind an item that is followed by a separator, the items begin anew behind the separator. -/
theorem separated_turn (hp : ∀ c, p c = true → c.kind ≠ .eof) (hitem : ∀ c, b.Holds c → c.Precedes (stop (item c)))
    {c c' : Cursor} {a : α} (hc' : b.Holds c') (hfirst : item c = .ok a c') :
    separated p item c = if p c' then prepend [a] (separated p item c'.advance) else .ok [a] c' := by
  have hsecond : (do let _ ← TokenParser.next; item : TokenParser α) c' = item c'.advance := rfl
  rw [separated_eq, hfirst]
  dsimp only
  rw [TokenParser.manyWhile]
  by_cases hpc : p c' = true
  · have hadvance : c'.advance.size < c'.size := Cursor.size_advance_lt hc'.sound (hp c' hpc)
    have hless := Nat.lt_of_le_of_lt (hitem c'.advance hc'.advance).size_le hadvance
    rw [if_pos hpc, if_pos hpc, hsecond, separated_eq]
    cases hnext : item c'.advance with
    | error e c'' => rfl
    | ok a' c'' =>
      rw [hnext] at hless
      have hturn : c''.size < c'.size := hless
      simp only [if_pos hturn]
      cases TokenParser.manyWhile p (do let _ ← TokenParser.next; item) c'' <;> rfl
  · rw [if_neg hpc, if_neg hpc]
    rfl

/-- A loop whose items are separated, with its separator as what follows an item. -/
theorem repeats_separated (hp : ∀ c, p c = true → c.kind ≠ .eof) (hitem : ∀ c, b.Holds c → c.Precedes (stop (item c))) :
    b.Repeats (fun _ => true) item (eatIf p) (separated p item) := by
  intro c hc
  rw [if_pos rfl]
  have hmoves := hitem c hc
  cases hfirst : item c with
  | error e c' => rw [separated_eq, hfirst]
  | ok a c' =>
    rw [hfirst] at hmoves
    have hc' : b.Holds c' := hc.of_precedes hmoves
    have hmore : eatIf p c' = if p c' then .ok true c'.advance else .ok false c' := by
      rw [eatIf, bind_eq_match, TokenParser.test]
      cases p c' <;> rfl
    rw [separated_turn hp hitem hc' hfirst]
    dsimp only
    rw [hmore]
    by_cases hpc : p c' = true
    · have hturn : c'.advance.size < c.size :=
        Nat.lt_of_lt_of_le (Cursor.size_advance_lt hc'.sound (hp c' hpc)) hmoves.size_le
      simp only [if_pos hpc, Bool.true_and, decide_eq_true hturn, if_true]
    · simp only [if_neg hpc]
      rfl

/-! ### Lists in brackets -/

/-- Whether another item follows behind a comma in a list that ends with a bracket. -/
def isAtNextItem (close : TokenKind) (c : Cursor) : Bool := c.isAt .comma && c.secondKind != close

theorem commaList_of_isAt {close : TokenKind} {c : Cursor} (h : c.isAt close = true) :
    TokenParser.commaList close item c = .ok [] c := by
  rw [TokenParser.commaList, bind_eq_match, TokenParser.test, h]
  rfl

/-- A comma may stand behind a list. -/
def passComma : EStateM.Result ParseError Cursor (List α) → EStateM.Result ParseError Cursor (List α)
  | .ok found c => .ok found (if c.isAt .comma then c.advance else c)
  | .error e c => .error e c

/-- A list that has items is a separated one, with a comma that may stand behind it. -/
theorem commaList_of_not_isAt {close : TokenKind} {c : Cursor} (h : c.isAt close = false) :
    TokenParser.commaList close item c = passComma (separated (isAtNextItem close) item c) := by
  rw [TokenParser.commaList, bind_eq_match, TokenParser.test, h, separated_eq]
  refine (bind_eq_match _ _ _).trans ?_
  cases item c with
  | error e c' => rfl
  | ok first c' =>
    have hothers : TokenParser.manyWhile (fun c => c.isAt .comma && c.secondKind != close)
        (do let _ ← TokenParser.next; item) c' =
          TokenParser.manyWhile (isAtNextItem close) (do let _ ← TokenParser.next; item) c' := rfl
    refine (bind_eq_match _ _ _).trans ?_
    dsimp only
    rw [hothers]
    cases TokenParser.manyWhile (isAtNextItem close) (do let _ ← TokenParser.next; item) c' with
    | error e c'' => rfl
    | ok others c'' =>
      dsimp only [prepend, passComma]
      rw [bind_eq_match, TokenParser.eat]
      cases c''.isAt .comma <;> rfl

/-- Behind a comma, a list goes on as one of its own: with another item, or with none where the bracket closes. -/
theorem passComma_next {close : TokenKind} {c : Cursor} {a : α} (hc : c.Sound) (hcomma : c.isAt .comma = true) :
    passComma (if isAtNextItem close c then prepend [a] (separated (isAtNextItem close) item c.advance) else .ok [a] c) =
      prepend [a] (TokenParser.commaList close item c.advance) := by
  have hat : c.advance.isAt close = (c.secondKind == close) := by
    rw [Cursor.isAt, Cursor.kind_advance hc (ne_eof_of_isAt hcomma (by decide))]
  rw [isAtNextItem, hcomma, bne, Bool.true_and]
  cases hsecond : c.secondKind == close with
  | true =>
    rw [commaList_of_isAt (hat.trans hsecond)]
    simp [passComma, prepend, hcomma]
  | false =>
    rw [commaList_of_not_isAt (hat.trans hsecond)]
    show passComma (prepend [a] (separated (isAtNextItem close) item c.advance)) = _
    cases separated (isAtNextItem close) item c.advance <;> rfl

/-- A list in brackets as a loop: it ends where the bracket closes, and a comma follows each item but the last. -/
theorem repeats_commaList (close : TokenKind) (hitem : ∀ c, b.Holds c → c.Precedes (stop (item c))) :
    b.Repeats (fun c => !c.isAt close) item (TokenParser.eat .comma) (TokenParser.commaList close item) := by
  have hnext : ∀ c, isAtNextItem close c = true → c.kind ≠ .eof := fun c h =>
    ne_eof_of_isAt (Bool.and_eq_true_iff.mp h).1 (by decide)
  intro c hc
  have hmoves := hitem c hc
  cases hclose : c.isAt close with
  | true => rw [commaList_of_isAt hclose, if_neg (by simp [hclose])]
  | false =>
    rw [commaList_of_not_isAt hclose, if_pos (by simp [hclose])]
    cases hfirst : item c with
    | error e c' => rw [separated_eq, hfirst]; rfl
    | ok a c' =>
      rw [hfirst] at hmoves
      have hc' : b.Holds c' := hc.of_precedes hmoves
      rw [separated_turn hnext hitem hc' hfirst]
      dsimp only
      rw [TokenParser.eat]
      cases hcomma : c'.isAt .comma with
      | false => simp [isAtNextItem, passComma, hcomma]
      | true =>
        have hturn : c'.advance.size < c.size :=
          Nat.lt_of_lt_of_le (Cursor.size_advance_lt hc'.sound (ne_eof_of_isAt hcomma (by decide))) hmoves.size_le
        rw [passComma_next hc'.sound hcomma]
        simp only [if_true, Bool.true_and, decide_eq_true hturn]

theorem mirrors_commaList (close : TokenKind) (hitem : b.Mirrors item' item) :
    b.Mirrors (Parsing.repeated (fun p => !p.isAt close) item' Parsing.eatComma) (TokenParser.commaList close item) :=
  (repeats_commaList close fun c hc => (hitem c hc).2).mirrors (isAt_tells _).not (fun c hc _ => hitem c hc) .eatComma

theorem mirrors_separated (hp : ∀ c, p c = true → c.kind ≠ .eof) (hitem : b.Mirrors item' item)
    (hmore : b.Mirrors more' (eatIf p)) :
    b.Mirrors (Parsing.repeated (fun _ => true) item' more') (separated p item) :=
  (repeats_separated hp fun c hc => (hitem c hc).2).mirrors (fun _ _ => rfl) (fun c hc _ => hitem c hc) hmore

end Repeated

/-! ## Groups -/

/-- A turn of a group: which brackets are due behind a token, if it may stand there. -/
theorem groupTurn_cons (due : TokenKind) (outer : List TokenKind) (c : Cursor) : groupTurn (due :: outer, c) =
    if c.kind = .eof then .inr (.error (.unexpectedEof c.peek.span) c)
    else
      match Parsing.dueBehind due outer c.kind with
      | some due' => .inl (due', c.advance)
      | none => .inr (.error (TokenParser.mismatched due c.peek) c) := by
  rw [groupTurn, Parsing.dueBehind]
  by_cases hend : c.kind = .eof
  · rw [if_pos hend, if_pos hend]
  · rw [if_neg hend, if_neg hend]
    cases c.kind.closing? with
    | some closing => rfl
    | none =>
      dsimp only
      by_cases hclosing : c.kind.isClosing = true
      · rw [if_pos hclosing, if_pos hclosing]
        by_cases hdue : c.kind = due
        · rw [if_pos hdue, if_pos hdue]
        · rw [if_neg hdue, if_neg hdue]
      · rw [if_neg hclosing, if_neg hclosing]

/-- A turn of a group in the buffer is its turn at the cursor. -/
theorem closeGroups_turn (hc : b.Holds c) (due : List TokenKind) :
    (∃ r, groupTurn (due, c) = .inr r ∧ Parsing.closeGroups due (b.goTo c) = b.lift r ∧ stop r = c) ∨
      ∃ due', groupTurn (due, c) = .inl (due', c.advance) ∧
        Parsing.closeGroups due (b.goTo c) = Parsing.closeGroups due' (b.goTo c.advance) := by
  cases due with
  | nil => exact .inl ⟨_, rfl, by rw [Parsing.closeGroups]; rfl, rfl⟩
  | cons due outer =>
    rw [Parsing.closeGroups]
    simp only [groupTurn_cons, hc.isAt, hc.peek, hc.kind, hc.goTo_advance]
    by_cases hend : c.kind = .eof
    · rw [if_pos hend, if_pos (Cursor.isAt_iff.mpr hend)]
      exact .inl ⟨_, rfl, rfl, rfl⟩
    · rw [if_neg hend, if_neg fun hat => hend (Cursor.isAt_iff.mp hat)]
      cases Parsing.dueBehind due outer c.kind with
      | none => exact .inl ⟨_, rfl, rfl, rfl⟩
      | some due' =>
        have hless := (hc.remaining_lt_iff hc.advance).mpr (Cursor.size_advance_lt hc.sound hend)
        exact .inr ⟨due', rfl, if_pos hless⟩

/-- What is passed up to the end of the groups that are due, by induction on the turns of the loop. -/
theorem mirrors_closeGroups (due : List TokenKind) : b.Mirrors (Parsing.closeGroups due) (TokenParser.closeGroups due) := by
  have hturns : ∀ s r, Loop (fun s => s.2.size) groupTurn s r → b.Holds s.2 →
      Parsing.closeGroups s.1 (b.goTo s.2) = b.lift r ∧ s.2.Precedes (stop r) := by
    intro s r hloop
    induction hloop with
    | stop h =>
      intro hc
      obtain ⟨r', hturn, heq, hstop⟩ | ⟨due', hturn, -⟩ := closeGroups_turn hc _
      · cases h.symm.trans hturn
        exact ⟨heq, hstop ▸ .refl⟩
      · cases h.symm.trans hturn
    | again h _ _ ih =>
      intro hc
      obtain ⟨r', hturn, -⟩ | ⟨due', hturn, heq⟩ := closeGroups_turn hc _
      · cases h.symm.trans hturn
      · cases h.symm.trans hturn
        obtain ⟨hrest, hmoves⟩ := ih hc.advance
        exact ⟨heq.trans hrest, Cursor.Precedes.advance.trans hmoves⟩
  exact fun c hc => hturns (due, c) _ (TokenParser.loop_closeGroups hc.sound due) hc

theorem mirrors_skipBalanced : b.Mirrors Parsing.skipBalanced TokenParser.skipGroup := by
  unfold Parsing.skipBalanced TokenParser.skipGroup
  refine .bind .next fun opening => ?_
  cases opening.kind.closing? with
  | none => exact fun _ _ => ⟨rfl, .refl⟩
  | some closing => exact mirrors_closeGroups [closing]

/-! ## Tokens of an argument -/

/-- Tokens and groups are passed up to the end of an argument or up to a brace. -/
def isInArgument (c : Cursor) : Bool := !c.isAtEnd && !(TokenParser.isAtArgumentEnd c || c.isAt .rightBrace)

/-- Makes an error of a brace that closes nothing. -/
def refuseBrace : EStateM.Result ParseError Cursor (List Unit) → EStateM.Result ParseError Cursor (List Unit)
  | .ok found c => if c.isAt .rightBrace then .error (TokenParser.strayBrace c.peek) c else .ok found c
  | .error e c => .error e c

/-- Passes the tokens and groups up to the end of an argument, where no brace closes. -/
def argumentParts : TokenParser (List Unit) := fun c => refuseBrace (TokenParser.manyWhile isInArgument TokenParser.skipOne c)

/-- Passes a token or a group of an argument, where no brace closes. -/
def argumentPart : TokenParser Unit := do
  if ← TokenParser.test (·.kind.isOpening) then TokenParser.skipGroup
  else if ← TokenParser.test (·.isAt .rightBrace) then TokenParser.failAtNext TokenParser.strayBrace
  else
    let _ ← TokenParser.next

theorem argumentPart_eq (c : Cursor) : argumentPart c =
    if c.isAt .rightBrace then .error (TokenParser.strayBrace c.peek) c else TokenParser.skipOne c := by
  rw [argumentPart, TokenParser.skipOne, bind_eq_match, TokenParser.test]
  cases hopening : c.kind.isOpening with
  | true =>
    have hbrace : c.isAt .rightBrace = false := by
      rw [Cursor.isAt, beq_eq_false_iff_ne]
      rintro h
      rw [h] at hopening
      cases hopening
    rw [hbrace]
    rfl
  | false => cases hbrace : c.isAt .rightBrace <;> simp [bind_eq_match, TokenParser.test, hbrace] <;> rfl

theorem isAtArgumentEnd_tells : b.Tells Parsing.isAtArgumentEnd TokenParser.isAtArgumentEnd := by
  intro c hc
  simp only [Parsing.isAtArgumentEnd, TokenParser.isAtArgumentEnd, hc.isAt]

theorem mirrors_argumentPart : b.Mirrors Parsing.skipPart argumentPart := by
  unfold Parsing.skipPart argumentPart
  refine .ite_test (fun c hc => by rw [hc.kind]) mirrors_skipBalanced ?_
  exact .ite_test (isAt_tells _) (.failAtNext _) (.bind .next fun _ => .pure _)

theorem refuseBrace_prepend (found : List Unit) (r : EStateM.Result ParseError Cursor (List Unit)) :
    refuseBrace (prepend found r) = prepend found (refuseBrace r) := by
  cases r with
  | error e c => rfl
  | ok others c =>
    simp only [prepend, refuseBrace]
    split <;> rfl

/-- The tokens of an argument as a loop: a brace is refused where the loop comes to it. -/
theorem repeats_argumentParts :
    b.Repeats (fun c => !TokenParser.isAtArgumentEnd c) argumentPart (pure true) argumentParts := by
  refine .of_turn fun c hc => ?_
  simp only [argumentParts, argumentPart_eq]
  rw [TokenParser.manyWhile, isInArgument]
  cases hends : TokenParser.isAtArgumentEnd c with
  | true =>
    have hbrace : c.isAt .rightBrace = false := by
      simp only [TokenParser.isAtArgumentEnd, Bool.or_eq_true, Cursor.isAt_iff] at hends
      rw [Cursor.isAt, beq_eq_false_iff_ne]
      rintro h
      simp [h] at hends
    simp [refuseBrace, hbrace]
  | false =>
    have hend : c.isAtEnd = false := by
      rw [TokenParser.isAtArgumentEnd, Bool.or_eq_false_iff] at hends
      exact hends.2
    cases hbrace : c.isAt .rightBrace with
    | true => simp [refuseBrace, hbrace]
    | false =>
      simp only [hend, Bool.or_self, Bool.not_false, Bool.and_self, if_true, Bool.false_eq_true, if_false]
      cases hstep : TokenParser.skipOne c with
      | error e c' => rfl
      | ok _ c' =>
        have hkind : c.kind ≠ .eof := fun h => by
          rw [Cursor.isAtEnd, Cursor.isAt, h] at hend
          cases hend
        have hless : c'.size < c.size := TokenParser.size_skipOne_lt hc.sound hkind hstep
        simp only [if_pos hless, ← refuseBrace_prepend]
        cases TokenParser.manyWhile isInArgument TokenParser.skipOne c' <;> rfl

/-- Passing the tokens of an argument. -/
theorem mirrors_skipArgument : b.Mirrors Parsing.skipArgument (argumentParts >>= fun _ => pure ()) := by
  have hparts : b.Mirrors (Parsing.manyWhile (fun p => !Parsing.isAtArgumentEnd p) Parsing.skipPart) argumentParts :=
    repeats_argumentParts.mirrors isAtArgumentEnd_tells.not (fun c hc _ => mirrors_argumentPart c hc) (.pure true)
  exact hparts.bind fun _ => .pure _

end BufferedParser

end ServiceCatalog
