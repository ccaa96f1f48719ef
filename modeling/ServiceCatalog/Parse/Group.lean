import ServiceCatalog.Parse.Basic

/-!
# Bracketed groups

What the parser does not model it steps over, and brackets say how far.  `groupReach` reads tokens with a
stack of the brackets that are due: it stops where the last one is closed, where a bracket closes that is
not the due one, or at the end.  `skipGroup` applies it to the group that opens at a cursor.

Angle brackets are no brackets in this sense, since they are also comparison marks; `skipAngles` counts
them inside a type parameter list only, where a brace cannot stand.
-/

namespace ServiceCatalog

/-! ## The reach of a group -/

/-- Where the reading of brackets stopped. -/
inductive GroupEnd where
  /-- Everything due is closed. -/
  | closed
  /-- The tokens ended with brackets due. -/
  | unclosed
  /-- The token `found` closes a bracket other than the due one. -/
  | mismatched (due : TokenKind) (found : Token)
  deriving DecidableEq, Repr

/-- How many tokens the reading of brackets took, and where it stopped. -/
structure GroupReach where
  length : Nat
  ending : GroupEnd
  deriving DecidableEq, Repr

/-- The reach with one more token before it. -/
def GroupReach.succ (r : GroupReach) : GroupReach := ⟨r.length + 1, r.ending⟩

/-- Reads tokens until all brackets that are due, innermost first, are closed. -/
def groupReach : List TokenKind → List Token → GroupReach
  | [], _ => ⟨0, .closed⟩
  | _ :: _, [] => ⟨0, .unclosed⟩
  | due :: outer, t :: ts =>
    match t.kind.closing? with
    | some closing => (groupReach (closing :: due :: outer) ts).succ
    | none =>
      if t.kind.isClosing then
        if t.kind = due then (groupReach outer ts).succ else ⟨0, .mismatched due t⟩
      else (groupReach (due :: outer) ts).succ

namespace TokenParser

/-- The error for a bracket that closes another group than the one that is due. -/
def mismatched (due : TokenKind) (found : Token) : ParseError :=
  ⟨.mismatchedDelimiter, found.span, "expected " ++ due.description ++ ", found " ++
    found.kind.description⟩

/-- The error for a token that opens no group. -/
def notOpening (found : Token) : ParseError :=
  ⟨.unexpectedToken, found.span, "expected an opening bracket, found " ++ found.describe⟩

/-- Passes the tokens up to the end of the groups that are due. -/
def closeGroups (due : List TokenKind) : TokenParser Unit := fun c =>
  let reach := groupReach due c.rest
  let stop := c.skip reach.length
  match reach.ending with
  | .closed => .ok () stop
  | .unclosed => .error (.unexpectedEof stop.peek.span) stop
  | .mismatched due found => .error (mismatched due found) stop

/-- Passes the bracketed group that opens with the next token. -/
def skipGroup : TokenParser Unit := do
  let opening ← next
  match opening.kind.closing? with
  | none => throw (notOpening opening)
  | some closing => closeGroups [closing]

/-- Passes the next token, with its group if it opens one. -/
def skipOne : TokenParser Unit := fun c =>
  if c.kind.isOpening then skipGroup c else .ok () c.advance

/-- Passes tokens and whole groups until the file ends or a test of the cursor holds. -/
def skipUntil (stop : Cursor → Bool) : TokenParser Unit := fun c =>
  match manyWhile (fun c => !c.isAtEnd && !stop c) skipOne c with
  | .ok _ c' => .ok () c'
  | .error e c' => .error e c'

/-! ## Angle brackets -/

/-- The error for a type parameter list that opens at a place and does not end. -/
def unclosedAngle (opening : Span) : ParseError := ⟨.mismatchedDelimiter, opening, "unclosed '<'"⟩

/-- How the number of open angle brackets changes with the next token.  There is no answer at the end of
the file and at braces. -/
def angleDepth (depth : Nat) : TokenKind → Option Nat
  | .less => some (depth + 1)
  | .greater => some (depth - 1)
  | .eof | .leftBrace | .rightBrace => none
  | _ => some depth

/-- Passes tokens until as many angle brackets are closed as are open. -/
def closeAngles (opening : Span) (depth : Nat) (c : Cursor) : EStateM.Result ParseError Cursor Unit :=
  if depth = 0 then .ok () c
  else
    match angleDepth depth c.kind with
    | none => .error (unclosedAngle opening) c
    | some depth' =>
      match skipOne c with
      | .error e c' => .error e c'
      | .ok _ c' => if c'.size < c.size then closeAngles opening depth' c' else .ok () c'
termination_by c.size

/-- Passes a list in angle brackets. -/
def skipAngles : TokenParser Unit := do
  let opening ← expect .less
  closeAngles opening.span 1

end TokenParser

end ServiceCatalog
