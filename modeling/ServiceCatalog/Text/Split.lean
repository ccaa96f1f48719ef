/-!
# Cutting and joining text

Names, paths and option texts are all made of parts with a mark between them.  `parts` cuts a text at
every occurrence of a mark, `cutFirst` and `cutLast` at one occurrence, and `joined` puts the mark back.
All of them go through the list of characters, so that their laws are laws of lists.
-/

namespace ServiceCatalog.Text

/-- The parts of a text between the occurrences of a mark; a text without the mark is its only part. -/
def parts (mark : Char) (s : String) : List String :=
  (s.toList.splitOn mark).map String.ofList

/-- The parts with the mark between them. -/
def joined (mark : Char) (ps : List String) : String :=
  String.intercalate (String.singleton mark) ps

/-- The texts before and after the first occurrence of a mark. -/
def cutFirst (mark : Char) (s : String) : Option (String × String) :=
  match s.toList.dropWhile (· != mark) with
  | [] => none
  | _ :: after => some (String.ofList (s.toList.takeWhile (· != mark)), String.ofList after)

/-- The texts before and after the last occurrence of a mark. -/
def cutLast (mark : Char) (s : String) : Option (String × String) :=
  match s.toList.reverse.dropWhile (· != mark) with
  | [] => none
  | _ :: before =>
    some (String.ofList before.reverse,
      String.ofList (s.toList.reverse.takeWhile (· != mark)).reverse)

/-- What follows a given beginning, if the text has it. -/
def dropStart? (start s : String) : Option String :=
  if start.toList.isPrefixOf s.toList then some (String.ofList (s.toList.drop start.toList.length))
  else none

/-- What stands before a given end, if the text has it. -/
def dropEnd? (ending s : String) : Option String :=
  if ending.toList.isSuffixOf s.toList then
    some (String.ofList (s.toList.take (s.toList.length - ending.toList.length)))
  else none

/-- The lines of a text, without their line ends.  A line ends at a line feed, together with a carriage
return right before it; nothing follows the last line feed of a text that ends in one, and a last line
that no line feed ends keeps its carriage return. -/
def lines (s : String) : List String :=
  let pieces := s.toList.splitOn '\n'
  let ended := pieces.dropLast.map fun l => if l.getLast? = some '\r' then l.dropLast else l
  let last := match pieces.getLast? with
    | none | some [] => []
    | some l => [l]
  (ended ++ last).map String.ofList

/-- The text with blanks before it, up to a width. -/
def padLeft (width : Nat) (s : String) : String :=
  String.ofList (List.replicate (width - s.length) ' ' ++ s.toList)

/-- A text written several times. -/
def repeated (n : Nat) (c : Char) : String := String.ofList (List.replicate n c)

@[simp] theorem toList_joined (mark : Char) (ps : List String) :
    (joined mark ps).toList = [mark].intercalate (ps.map String.toList) := by
  simp [joined, String.toList_intercalate]

end ServiceCatalog.Text
