import ServiceCatalog.Text.Split

/-!
# Paths

A path is its text: `a//b` and `a/b` name the same place but are different paths, and every path that is
made from a given one begins with that one as it was written.  What two paths have in common is their list
of components, which forgets repeated slashes and dots in the middle.

* `FilePath.join`: a path relative to another.
* `FilePath.components`: what a path names, step by step; the order of paths is the order of these.
* `FilePath.fileName?`, `FilePath.extension?`: the last name, and its end behind the last dot.
-/

namespace ServiceCatalog

/-- A path, as it is written. -/
structure FilePath where
  text : String
  deriving DecidableEq, Repr, Inhabited

/-- A step of a path. -/
inductive PathComponent where
  /-- The top of the file tree. -/
  | root
  /-- The working directory, where a path begins with a dot. -/
  | here
  /-- The directory around. -/
  | up
  /-- The entry with a given name. -/
  | name (s : String)
  deriving DecidableEq, Repr, Ord

namespace FilePath

/-- The parts of a path between slashes. -/
def segments (p : FilePath) : List String := Text.parts '/' p.text

/-- Whether a path begins at the top of the file tree. -/
def isAbsolute (p : FilePath) : Bool := p.text.toList.head? = some '/'

/-- The path of a text that is relative to a path.  A text that begins with a slash is a path by itself. -/
def join (p : FilePath) (s : String) : FilePath :=
  if s.toList.head? = some '/' then ⟨s⟩
  else if p.text = "" ∨ p.text.toList.getLast? = some '/' then ⟨p.text ++ s⟩
  else ⟨p.text ++ "/" ++ s⟩

/-- The path of an entry some directories below a path. -/
def joinAll (p : FilePath) (names : List String) : FilePath := names.foldl join p

/-- The step that a part of a path stands for, unless it stands for none. -/
def component? (s : String) : Option PathComponent :=
  if s = "" ∨ s = "." then none
  else if s = ".." then some .up
  else some (.name s)

/-- The step that a path begins with, besides those of its parts. -/
def beginning (p : FilePath) : List PathComponent :=
  if p.isAbsolute then [.root]
  else if p.segments.head? = some "." then [.here]
  else []

/-- The steps of a path. -/
def components (p : FilePath) : List PathComponent := p.beginning ++ p.segments.filterMap component?

/-- The order of steps, and of a leading run before the longer path. -/
def compareComponents : List PathComponent → List PathComponent → Ordering
  | [], [] => .eq
  | [], _ :: _ => .lt
  | _ :: _, [] => .gt
  | a :: as, b :: bs => (compare a b).then (compareComponents as bs)

/-- Whether a path comes before another one or names the same steps. -/
def le (p q : FilePath) : Bool := (compareComponents p.components q.components).isLE

/-- Whether two paths name the same steps. -/
def same (p q : FilePath) : Bool := p.components = q.components

/-- The paths in order, and of those that name the same steps the first one only. -/
def inOrder (ps : List FilePath) : List FilePath := (ps.mergeSort le).eraseDupsBy same

/-- The name of the entry at a path, if the path ends in a name. -/
def fileName? (p : FilePath) : Option String :=
  match p.components.getLast? with
  | some (.name s) => some s
  | _ => none

/-- What follows the last dot of the name of an entry, unless the name begins with that dot. -/
def extension? (p : FilePath) : Option String :=
  match p.fileName?.bind (Text.cutLast '.') with
  | some (before, after) => if before = "" then none else some after
  | none => none

@[simp] theorem text_join_of_absolute (p : FilePath) {s : String} (h : s.toList.head? = some '/') :
    (p.join s).text = s := by simp [join, h]

end FilePath

end ServiceCatalog
