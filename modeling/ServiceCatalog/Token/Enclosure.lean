/-!
# Where a literal ends

String literals nest: a template inside one holds arbitrary tokens, further literals and comments among
them.  The end of a literal is found by a single pass over the characters with a stack of what is open.
`Enclosure.step` is one move of the pass.  It consumes at least one character, never looks back, and
replaces the innermost enclosure by those that are open behind the characters it took: by none where it
closes, by two where another one opens inside it.  Hence skipping a stack on top of another one is
skipping the first and then the second (`skip_append`).

A quoted string or a character that meets the end of its line is unterminated, at any depth of the
nesting, and so is everything that meets the end of the text.
-/

namespace ServiceCatalog

/-- What is open at a place inside a literal or a comment. -/
inductive Enclosure where
  /-- A string between single quote marks, which ends on its line. -/
  | quoted
  /-- A string between triple quote marks. -/
  | raw
  /-- A character literal. -/
  | character
  /-- A template, with the number of braces open inside it. -/
  | template (depth : Nat)
  /-- A block comment, with the number of comments open inside it. -/
  | comment (depth : Nat)
  deriving DecidableEq, Repr

namespace Enclosure

/-- One move inside an enclosure, at the character `c` with `cs` behind it: the number of characters
consumed after `c`, and what the enclosure is replaced by.  There is none where the enclosure cannot go
on.

A raw string ends with the last three of a run of quote marks, so the first of four is part of it. -/
def step : Enclosure → Char → List Char → Option (Nat × List Enclosure)
  | quoted, c, cs =>
    if c = '\n' then none
    else if c = '"' then some (0, [])
    else if c = '\\' then some (min 1 cs.length, [quoted])
    else if c = '$' && cs.head? = some '{' then some (1, [template 0, quoted])
    else some (0, [quoted])
  | character, c, cs =>
    if c = '\n' then none
    else if c = '\'' then some (0, [])
    else if c = '\\' then some (min 1 cs.length, [character])
    else some (0, [character])
  | raw, c, cs =>
    if c = '"' && cs.take 2 = ['"', '"'] then
      if (cs.drop 2).head? = some '"' then some (0, [raw]) else some (2, [])
    else if c = '$' && cs.head? = some '{' then some (1, [template 0, raw])
    else some (0, [raw])
  | template depth, c, cs =>
    if c = '{' then some (0, [template (depth + 1)])
    else if c = '}' then
      match depth with
      | 0 => some (0, [])
      | depth + 1 => some (0, [template depth])
    else if c = '"' then
      if cs.take 2 = ['"', '"'] then some (2, [raw, template depth])
      else some (0, [quoted, template depth])
    else if c = '\'' then some (0, [character, template depth])
    else if c = '/' && cs.head? = some '*' then some (1, [comment 0, template depth])
    else some (0, [template depth])
  | comment depth, c, cs =>
    if c = '/' && cs.head? = some '*' then some (1, [comment (depth + 1)])
    else if c = '*' && cs.head? = some '/' then
      match depth with
      | 0 => some (1, [])
      | depth + 1 => some (1, [comment depth])
    else some (0, [comment depth])

/-- How far a pass came: whether it closed everything, and how many characters it consumed. -/
structure Reach where
  closed : Bool
  length : Nat
  deriving DecidableEq, Repr

namespace Reach

/-- The reach with further characters before it. -/
def beyond (n : Nat) (r : Reach) : Reach := ⟨r.closed, n + r.length⟩

@[simp] theorem closed_beyond (n : Nat) (r : Reach) : (r.beyond n).closed = r.closed := rfl

@[simp] theorem length_beyond (n : Nat) (r : Reach) : (r.beyond n).length = n + r.length := rfl

end Reach

/-- Skips until everything on the stack is closed. -/
def skip (stack : List Enclosure) (cs : List Char) : Reach :=
  match stack, cs with
  | [], _ => ⟨true, 0⟩
  | _ :: _, [] => ⟨false, 0⟩
  | e :: outer, c :: cs =>
    match e.step c cs with
    | none => ⟨false, 0⟩
    | some (n, inner) => (skip (inner ++ outer) (cs.drop n)).beyond (n + 1)
termination_by cs.length
decreasing_by simp only [List.length_drop, List.length_cons]; omega

@[simp] theorem skip_nil (cs : List Char) : skip [] cs = ⟨true, 0⟩ := by simp [skip]

@[simp] theorem skip_cons_nil (e : Enclosure) (outer : List Enclosure) :
    skip (e :: outer) [] = ⟨false, 0⟩ := by simp [skip]

theorem skip_cons_cons (e : Enclosure) (outer : List Enclosure) (c : Char) (cs : List Char) :
    skip (e :: outer) (c :: cs) = match e.step c cs with
      | none => ⟨false, 0⟩
      | some (n, inner) => (skip (inner ++ outer) (cs.drop n)).beyond (n + 1) := by
  rw [skip]

/-- Skipping a stack on top of another one is skipping the first and, if it closes, then the second. -/
theorem skip_append (s t : List Enclosure) (cs : List Char) :
    skip (s ++ t) cs =
      if (skip s cs).closed then (skip t (cs.drop (skip s cs).length)).beyond (skip s cs).length
      else skip s cs := by
  fun_induction skip s cs with
  | case1 cs => simp [Reach.beyond]
  | case2 e outer => simp
  | case3 e outer c cs h => simp [skip_cons_cons, h]
  | case4 e outer c cs n inner h ih =>
    simp only [List.cons_append, skip_cons_cons, h]
    rw [← List.append_assoc, ih]
    by_cases hc : (skip (inner ++ outer) (cs.drop n)).closed
    · simp [hc, Reach.beyond, List.drop_drop, Nat.add_assoc]
      simp [← Nat.add_assoc, Nat.add_right_comm _ 1]
    · simp [hc, Reach.beyond]

end Enclosure

end ServiceCatalog
