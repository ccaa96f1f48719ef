/-!
# Positions in a source file

A span is where a token, a declaration or a reference begins and how many bytes it covers.  Only the
beginning is ever shown, as `line:column`; the length serves the underlining of an error.
-/

namespace ServiceCatalog

/-- A stretch of a source file.  Lines and columns count from 1, columns and lengths in bytes. -/
structure Span where
  line : Nat
  column : Nat
  length : Nat
  deriving DecidableEq, Repr, Inhabited

namespace Span

/-- The empty span at a position. -/
def point (line column : Nat) : Span := ⟨line, column, 0⟩

/-- Whether the span covers nothing. -/
def isEmpty (s : Span) : Bool := s.length == 0

/-- The span that begins at the earlier of two spans and covers both.  Lengths of spans on different
lines are added up, since what lies between them is unknown. -/
def merge (a b : Span) : Span :=
  if a.line = b.line then
    let start := min a.column b.column
    ⟨a.line, start, max (b.column + b.length) (a.column + a.length) - start⟩
  else if b.line < a.line then ⟨b.line, b.column, a.length + b.length⟩
  else ⟨a.line, a.column, a.length + b.length⟩

/-- The position as messages show it. -/
def text (s : Span) : String := toString s.line ++ ":" ++ toString s.column

end Span

/-- A place in a source text: line and column of the next character, both from 1, the column in bytes. -/
structure Position where
  line : Nat
  column : Nat
  deriving DecidableEq, Repr, Inhabited

namespace Position

/-- The beginning of a text. -/
def start : Position := ⟨1, 1⟩

/-- The place behind one character. -/
def step (p : Position) (c : Char) : Position :=
  if c = '\n' then ⟨p.line + 1, 1⟩ else ⟨p.line, p.column + c.utf8Size⟩

/-- The place behind a run of characters. -/
def after (p : Position) (cs : List Char) : Position := cs.foldl step p

/-- The number of bytes of a run of characters. -/
def bytes : List Char → Nat
  | [] => 0
  | c :: cs => c.utf8Size + bytes cs

/-- The span of a run of characters that begins here. -/
def spanOf (p : Position) (cs : List Char) : Span := ⟨p.line, p.column, bytes cs⟩

@[simp] theorem after_nil (p : Position) : p.after [] = p := rfl

@[simp] theorem after_append (p : Position) (cs ds : List Char) :
    p.after (cs ++ ds) = (p.after cs).after ds := List.foldl_append

@[simp] theorem bytes_nil : bytes [] = 0 := rfl

@[simp] theorem bytes_append (cs ds : List Char) : bytes (cs ++ ds) = bytes cs + bytes ds := by
  induction cs with
  | nil => simp
  | cons c cs ih => simp [bytes, ih, Nat.add_assoc]

end Position

end ServiceCatalog
