import ServiceCatalog.Text.Split

/-!
# Dotted names

A package, a class or a type alias is known to the resolver by its dotted name, a list of segments.  The
root name has none; it is the package of a file without a package header, and its text is empty.

A text becomes a name by cutting at the dots and dropping empty segments, so every text denotes a name,
and a segment that was read from a text holds no dot.  `ofText` and `text` are therefore inverse on the
names whose segments are non-empty and free of dots (`DottedName.Plain`), and on no others.
-/

namespace ServiceCatalog

/-- A dotted name, outermost segment first. -/
structure DottedName where
  segments : List String
  deriving DecidableEq, Repr, Inhabited

namespace DottedName

/-- The name without segments. -/
def root : DottedName := ⟨[]⟩

/-- The segments that a dotted text names: its parts between dots, empty ones dropped. -/
def segmentsOf (s : String) : List String := (Text.parts '.' s).filter (· ≠ "")

/-- The name that a dotted text denotes. -/
def ofText (s : String) : DottedName := ⟨segmentsOf s⟩

/-- The dotted text of a name. -/
def text (n : DottedName) : String := Text.joined '.' n.segments

/-- Whether the name has no segment. -/
def isRoot (n : DottedName) : Bool := n.segments.isEmpty

/-- The number of segments. -/
def size (n : DottedName) : Nat := n.segments.length

/-- The last segment; the root has the empty text instead. -/
def shortName (n : DottedName) : String := n.segments.getLastD ""

/-- The name without its last segment; the root is its own parent. -/
def parent (n : DottedName) : DottedName := ⟨n.segments.dropLast⟩

/-- The name with one more segment. -/
def child (n : DottedName) (segment : String) : DottedName := ⟨n.segments ++ [segment]⟩

/-- The name followed by the segments of a dotted text. -/
def join (n : DottedName) (s : String) : DottedName := ⟨n.segments ++ segmentsOf s⟩

/-- The segments of one name followed by those of another. -/
protected def append (a b : DottedName) : DottedName := ⟨a.segments ++ b.segments⟩

instance : Append DottedName := ⟨DottedName.append⟩

/-- Whether the segments of `start` are a leading run of those of `n`. -/
def startsWith (n start : DottedName) : Bool := start.segments.isPrefixOf n.segments

/-- The order of names: segment by segment, each by its characters, and a leading run before the longer
name. -/
def compareSegments : List String → List String → Ordering
  | [], [] => .eq
  | [], _ :: _ => .lt
  | _ :: _, [] => .gt
  | a :: as, b :: bs => (compare a b).then (compareSegments as bs)

instance : Ord DottedName := ⟨fun a b => compareSegments a.segments b.segments⟩

/-- A name as the reader of texts produces it: every segment is non-empty and free of dots. -/
def Plain (n : DottedName) : Prop := ∀ s ∈ n.segments, s ≠ "" ∧ '.' ∉ s.toList

@[simp] theorem segments_root : root.segments = [] := rfl

@[simp] theorem segments_append (a b : DottedName) : (a ++ b).segments = a.segments ++ b.segments := rfl

@[simp] theorem segments_child (n : DottedName) (s : String) :
    (n.child s).segments = n.segments ++ [s] := rfl

@[simp] theorem segments_join (n : DottedName) (s : String) :
    (n.join s).segments = n.segments ++ (ofText s).segments := rfl

@[simp] theorem parent_child (n : DottedName) (s : String) : (n.child s).parent = n := by
  simp [parent, child]

@[simp] theorem shortName_child (n : DottedName) (s : String) : (n.child s).shortName = s := by
  simp [shortName, child]

theorem segments_inj {a b : DottedName} : a.segments = b.segments ↔ a = b := by
  cases a
  cases b
  simp

theorem join_eq_append (n : DottedName) (s : String) : n.join s = n ++ ofText s := rfl

end DottedName

end ServiceCatalog
