import ServiceCatalog.Proofs.Parse.BufferedTypes
import ServiceCatalog.Proofs.Parse.Nesting

/-!
# What a step can change

Whatever is done with a parser over the buffer, step after step, it shows a parser that keeps a cursor: it stands where
the cursor stands, and has the same errors.  The one that keeps a cursor has no place to go back to but those that it has
kept, and each of its token parsers only moves on.  So all steps but those about the errors leave the buffer and the
errors alone and stop at a later place or at the same one.  That is so also where a step fails, and where it has tried a
construct and given it up, since a place that is gone back to is one where the step has been before.

* `Operation.run_eq_lift`: a step answers what the token parser answers.
* `Operation.after_shows`: what one step preserves.
* `Operation.afterAll_shows`: what a sequence of them preserves.
* `Operation.afterAll_bounded`: the position is never behind the end of the file, and a step that is not about the errors
  changes nothing else and sets it back no further than where it began.
-/

namespace ServiceCatalog

open TokenParser (stop)

namespace BufferedParser

/-- Whether a parser stands at a cursor of its buffer. -/
structure StandsAt (p : BufferedParser) (c : Cursor) : Prop where
  holds : p.Holds c
  goTo : p.goTo c = p

/-- Whether the end of the file is the last token of the buffer and no other one, with the position not behind it. -/
def EndsAtEof (p : BufferedParser) : Prop :=
  ∃ front eof, p.buffer = front ++ [eof] ∧ eof.kind = .eof ∧ (∀ t ∈ front, t.kind ≠ .eof) ∧ p.position ≤ front.length

/-- Whether only the position differs from that of an earlier parser, and is none in front of it. -/
structure MovesOn (p p' : BufferedParser) : Prop where
  buffer : p'.buffer = p.buffer
  errors : p'.errors = p.errors
  position : p.position ≤ p'.position

/-- Whether a parser stands where one with a cursor does, and has its errors. -/
structure Shows (p : BufferedParser) (q : Parser) : Prop where
  standsAt : p.StandsAt q.cursor
  errors : p.errors = q.errors

variable {p : BufferedParser} {c c' : Cursor}

namespace StandsAt

theorem position_lt (h : p.StandsAt c) : p.position < p.buffer.length := by
  obtain ⟨-, passed, hbuffer, -⟩ := h.holds
  rw [← h.goTo, goTo_eq hbuffer]
  show passed.length < p.buffer.length
  rw [hbuffer, List.length_append, List.length_append, List.length_singleton]
  omega

/-- At a later place of the file. -/
theorem of_precedes (h : p.StandsAt c) (hmoves : c.Precedes c') : (p.goTo c').StandsAt c' :=
  have hlater := h.holds.of_precedes hmoves
  ⟨⟨hlater.sound, hlater.split⟩, rfl⟩

theorem movesOn (h : p.StandsAt c) (hmoves : c.Precedes c') : p.MovesOn (p.goTo c') := by
  refine ⟨rfl, rfl, ?_⟩
  have hposition := position_mono (b := p) hmoves
  rwa [h.goTo] at hposition

end StandsAt

/-- Both begin in front of the tokens of the source, with the errors of its pieces that are no tokens. -/
theorem ofSource_shows (source : String) : (ofSource source).Shows (Parser.ofSource source) := by
  obtain ⟨hsound, htokens⟩ := Parser.ofSource_cursor source
  have hbuffer : (ofSource source).buffer = [] ++ ((Parser.ofSource source).cursor.rest ++ [(Parser.ofSource source).cursor.eof]) :=
    htokens
  exact ⟨⟨⟨hsound, [], hbuffer, rfl⟩, goTo_eq hbuffer⟩, rfl⟩

/-- The tokens of a source text end with the end of the file, and so does a position among them. -/
theorem endsAtEof_of_buffer {source : String} (hbuffer : p.buffer = tokensOf source) (hposition : p.position < p.buffer.length) :
    p.EndsAtEof := by
  obtain ⟨hsound, htokens⟩ := Parser.ofSource_cursor source
  have hsplit := hbuffer.trans htokens
  refine ⟨_, _, hsplit, hsound.eof, hsound.rest, ?_⟩
  rw [hsplit, List.length_append, List.length_singleton] at hposition
  exact Nat.le_of_lt_succ hposition

end BufferedParser

namespace Parsing.Operation

open BufferedParser

variable {p : BufferedParser} {q : Parser}

/-- Whether an operation is about the errors and about nothing else. -/
def isAboutErrors : Operation → Bool
  | error _ | takeErrors => true
  | _ => false

/-- What a token parser does for an operation.  There are no errors at a cursor. -/
def atCursor? : (o : Operation) → Option (TokenParser o.Answer)
  | peek n => some fun c => .ok (c.peekNth n) c
  | advance => some TokenParser.next
  | eat k => some (TokenParser.eat? k)
  | expect k => some (TokenParser.expect k)
  | skipBalanced => some TokenParser.skipGroup
  | type => some TokenParser.type
  | userType => some TokenParser.userType
  | annotation => some TokenParser.annotationUse
  | annotations => some TokenParser.annotations
  | valueArguments => some TokenParser.valueArguments
  | argumentExpression => some TokenParser.value
  | error _ | takeErrors => none

/-- What an operation makes of a parser that keeps a cursor. -/
def onCursor (o : Operation) (q : Parser) : Parser :=
  match o, o.atCursor? with
  | error e, _ => q.record e
  | takeErrors, _ => { q with errors := [] }
  | _, some t => { q with cursor := stop (t q.cursor) }
  | _, none => q

theorem exists_atCursor? {o : Operation} (h : o.isAboutErrors = false) : ∃ t, o.atCursor? = some t := by
  cases o with
  | error | takeErrors => cases h
  | _ => exact ⟨_, rfl⟩

theorem onCursor_of_atCursor? {o : Operation} {t : TokenParser o.Answer} (h : o.atCursor? = some t) :
    o.onCursor q = { q with cursor := stop (t q.cursor) } := by
  cases o <;> cases h <;> rfl

/-- An operation answers what the token parser answers, and only moves on. -/
theorem mirrors_run {o : Operation} {t : TokenParser o.Answer} (h : o.atCursor? = some t) : p.Mirrors o.run t := by
  cases o with
  | error | takeErrors => cases h
  | peek n =>
    cases h
    refine fun c hc => ⟨?_, .refl⟩
    show Parsing.peekNth n (p.goTo c) = _
    rw [Parsing.peekNth, hc.peekNth]
    rfl
  | advance => cases h; exact .next
  | eat k => cases h; exact .eat k
  | expect k => cases h; exact .expect k
  | skipBalanced => cases h; exact mirrors_skipBalanced
  | type => cases h; exact mirrors_type
  | userType => cases h; exact mirrors_userTypeWith mirrors_type
  | annotation => cases h; exact mirrors_annotationWith mirrors_type mirrors_value
  | annotations => cases h; exact mirrors_annotationsWith mirrors_type mirrors_value
  | valueArguments => cases h; exact mirrors_valueArgumentsWith mirrors_value
  | argumentExpression => cases h; exact mirrors_value

theorem run_eq_lift (h : p.Shows q) {o : Operation} {t : TokenParser o.Answer} (ht : o.atCursor? = some t) :
    o.run p = p.lift (t q.cursor) := by
  have heq := (mirrors_run (p := p) ht q.cursor h.standsAt.holds).1
  rwa [h.standsAt.goTo] at heq

theorem stop_lift {α : Type} (r : EStateM.Result ParseError Cursor α) : stop (p.lift r) = p.goTo (stop r) := by
  cases r <;> rfl

theorem after_eq_stop (o : Operation) (p : BufferedParser) : o.after p = stop (o.run p) := by
  unfold after
  cases o.run p <;> rfl

/-- Behind each step, a parser shows what the step makes of the one with a cursor. -/
theorem after_shows (h : p.Shows q) (o : Operation) :
    (o.after p).Shows (o.onCursor q) ∧ (o.after p).buffer = p.buffer := by
  have hholds := h.standsAt.holds
  by_cases ho : o.isAboutErrors = true
  · cases o with
    | error e =>
      have hgoTo : (p.record e).goTo q.cursor = p.record e := congrArg (BufferedParser.record · e) h.standsAt.goTo
      exact ⟨⟨⟨⟨hholds.sound, hholds.split⟩, hgoTo⟩, congrArg (· ++ [e]) h.errors⟩, rfl⟩
    | takeErrors =>
      have hgoTo : p.forgetErrors.goTo q.cursor = p.forgetErrors := congrArg BufferedParser.forgetErrors h.standsAt.goTo
      exact ⟨⟨⟨⟨hholds.sound, hholds.split⟩, hgoTo⟩, rfl⟩, rfl⟩
    | _ => cases ho
  · obtain ⟨t, ht⟩ := exists_atCursor? (Bool.eq_false_iff.mpr ho)
    rw [after_eq_stop, run_eq_lift h ht, stop_lift, onCursor_of_atCursor? ht]
    exact ⟨⟨h.standsAt.of_precedes (mirrors_run ht q.cursor hholds).2, h.errors⟩, rfl⟩

/-- The parser behind a sequence of operations. -/
def afterAll (os : List Operation) (p : BufferedParser) : BufferedParser := os.foldl (fun p o => o.after p) p

/-- Behind a sequence of steps too, by induction on it. -/
theorem afterAll_shows (h : p.Shows q) (os : List Operation) :
    (afterAll os p).Shows (os.foldl (fun q o => o.onCursor q) q) ∧ (afterAll os p).buffer = p.buffer := by
  induction os generalizing p q with
  | nil => exact ⟨h, rfl⟩
  | cons o os ih =>
    obtain ⟨hstep, hbuffer⟩ := after_shows h o
    obtain ⟨hrest, hbuffer'⟩ := ih hstep
    exact ⟨hrest, hbuffer'.trans hbuffer⟩

/-- Behind any sequence of operations, the buffer has the tokens of the source, with the end of the file as the last of
them, and the position is not behind it.  From there, an operation that is not about the errors changes nothing but the
position, and sets it back no further than where it began, be it that it fails. -/
theorem afterAll_bounded (source : String) (os : List Operation) :
    (afterAll os (.ofSource source)).buffer = tokensOf source ∧ (afterAll os (.ofSource source)).EndsAtEof ∧
      ∀ o : Operation, o.isAboutErrors = false →
        (afterAll os (.ofSource source)).MovesOn (stop (o.run (afterAll os (.ofSource source)))) := by
  obtain ⟨hshows, hbuffer⟩ := afterAll_shows (ofSource_shows source) os
  refine ⟨hbuffer, endsAtEof_of_buffer hbuffer hshows.standsAt.position_lt, fun o ho => ?_⟩
  obtain ⟨t, ht⟩ := exists_atCursor? ho
  rw [run_eq_lift hshows ht, stop_lift]
  exact hshows.standsAt.movesOn (mirrors_run ht _ hshows.standsAt.holds).2

/-- Two types behind an open parenthesis: the first attempt fails at the comma and is given up, and the second one at the
end of the file. -/
theorem unclosed_type_moves_on : isAboutErrors .type = false ∧
    (afterAll [.eat .leftParen] (.ofSource "((A, B")).MovesOn
      (stop (run .type (afterAll [.eat .leftParen] (.ofSource "((A, B")))) ∧
    (afterAll [.eat .leftParen] (.ofSource "((A, B")).position = 1 ∧
    (stop (run .type (afterAll [.eat .leftParen] (.ofSource "((A, B")))).position = 5 :=
  ⟨rfl, (afterAll_bounded "((A, B" [.eat .leftParen]).2.2 .type rfl, by decide +kernel, by decide +kernel⟩

end Parsing.Operation

end ServiceCatalog
