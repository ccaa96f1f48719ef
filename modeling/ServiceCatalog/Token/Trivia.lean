import ServiceCatalog.Text.Blank
import ServiceCatalog.Token.Enclosure

/-!
# What separates tokens

Between two tokens stand blanks, line comments and block comments, which nest; before the first one there
may also be a byte order mark and a line that names an interpreter.  `headerLength` and `gap` measure
them.  A block comment that is never closed reaches to the end of the text, so `gap` stops before it and
only says that it did.
-/

namespace ServiceCatalog

/-- The length of a byte order mark and an interpreter line, which only the beginning of a file can
have.  The line feed that ends the line is not part of it. -/
def headerLength (cs : List Char) : Nat :=
  let mark := if cs.head? = some '\uFEFF' then 1 else 0
  let rest := cs.drop mark
  if rest.take 2 = ['#', '!'] then mark + (rest.takeWhile (· ≠ '\n')).length else mark

/-- The separators at the beginning of a text. -/
structure Gap where
  length : Nat
  /-- Whether a block comment that is never closed follows them. -/
  unclosed : Bool
  deriving DecidableEq, Repr

namespace Gap

/-- The gap with further separators before it. -/
def beyond (n : Nat) (g : Gap) : Gap := ⟨n + g.length, g.unclosed⟩

/-- The reach of a block comment behind its opening mark. -/
def commentReach (cs : List Char) : Enclosure.Reach := Enclosure.skip [.comment 0] cs

end Gap

/-- The separators that a text begins with. -/
def gap : List Char → Gap
  | [] => ⟨0, false⟩
  | c :: cs =>
    if Text.isBlank c then (gap cs).beyond 1
    else if c = '/' && cs.head? = some '/' then
      let n := (cs.takeWhile (· ≠ '\n')).length
      (gap (cs.drop n)).beyond (n + 1)
    else if c = '/' && cs.head? = some '*' then
      let reach := Gap.commentReach (cs.drop 1)
      if reach.closed then (gap (cs.drop (reach.length + 1))).beyond (reach.length + 2) else ⟨0, true⟩
    else ⟨0, false⟩
termination_by cs => cs.length
decreasing_by all_goals simp only [List.length_drop, List.length_cons]; omega

end ServiceCatalog
