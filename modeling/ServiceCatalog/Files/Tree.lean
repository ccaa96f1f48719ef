import ServiceCatalog.Files.Path

/-!
# File trees

The part of a file system that a run can see, as a value: the directories and files by their places, a place
being the list of names that leads there from the top.  The top itself is always a directory.

`node?` is the view of a tree, and the operations are described by what they do to it: `put` changes one
place, `clear` empties everything below one.  Paths are followed step by step (`place`), which fails where
something on the way is missing or is a file.
-/

namespace ServiceCatalog

/-- Why a path cannot be used. -/
inductive FileFault where
  | notFound
  | notADirectory
  | isADirectory
  | alreadyExists
  | nameTooLong
  | invalidData
  | invalidInput
  | unexpectedEof
  deriving DecidableEq, Repr

/-- The fault in words. -/
def FileFault.text : FileFault → String
  | notFound => "no such file or directory"
  | notADirectory => "not a directory"
  | isADirectory => "is a directory"
  | alreadyExists => "file exists"
  | nameTooLong => "file name too long"
  | invalidData => "invalid data"
  | invalidInput => "invalid input"
  | unexpectedEof => "unexpected end of file"

/-- What is at a place. -/
inductive FileNode where
  | directory
  | file (bytes : List UInt8)
  deriving DecidableEq, Repr

/-- Directories and files, and the place that relative paths start from. -/
structure FileTree where
  workingDirectory : List String
  entries : List (List String × FileNode)
  deriving Repr

namespace FileTree

/-- The tree without entries. -/
def empty : FileTree := ⟨[], []⟩

instance : Inhabited FileTree := ⟨empty⟩

/-- What is at a place. -/
def node? (t : FileTree) (place : List String) : Option FileNode :=
  if place = [] then some .directory
  else (t.entries.find? fun e => e.1 = place).map Prod.snd

/-- The tree with a given node at a place. -/
def put (t : FileTree) (place : List String) (n : FileNode) : FileTree :=
  { t with entries := t.entries.filter (fun e => e.1 ≠ place) ++ [(place, n)] }

/-- Whether a place is below another one. -/
def isBelow (top place : List String) : Bool := top.isPrefixOf place && place ≠ top

/-- The tree without anything below a place. -/
def clear (t : FileTree) (top : List String) : FileTree :=
  { t with entries := t.entries.filter fun e => !isBelow top e.1 }

/-- Everything below a place, with the names that lead there from it. -/
def below (t : FileTree) (top : List String) : List (List String × FileNode) :=
  (t.entries.filter fun e => isBelow top e.1).map fun e => (e.1.drop top.length, e.2)

/-! ## Following paths -/

/-- The greatest number of bytes of a name. -/
def maxName : Nat := 255

/-- The greatest number of bytes of a path. -/
def maxPath : Nat := 4095

/-- Follows one part of a path, from a place that must be a directory. -/
def step (t : FileTree) (place : List String) (segment : String) : Except FileFault (List String) :=
  match t.node? place with
  | none => .error .notFound
  | some (.file _) => .error .notADirectory
  | some .directory =>
    match FilePath.component? segment with
    | some (.name s) => if maxName < s.utf8ByteSize then .error .nameTooLong else .ok (place ++ [s])
    | some .up => .ok place.dropLast
    | _ => .ok place

/-- The place that a path starts from. -/
def start (t : FileTree) (p : FilePath) : List String :=
  if p.isAbsolute then [] else t.workingDirectory

/-- Whether a path can be followed at all: the text of none has a zero in it. -/
def check (p : FilePath) : Except FileFault Unit :=
  if p.text.toList.contains '\x00' then .error .invalidInput
  else if p.text = "" then .error .notFound
  else if maxPath < p.text.utf8ByteSize then .error .nameTooLong
  else .ok ()

/-- The place at the end of a path; nothing needs to be there, but everything on the way does. -/
def place (t : FileTree) (p : FilePath) : Except FileFault (List String) := do
  check p
  p.segments.foldlM t.step (t.start p)

/-- The place of an entry that is there, and the entry. -/
def find (t : FileTree) (p : FilePath) : Except FileFault (List String × FileNode) := do
  let place ← t.place p
  match t.node? place with
  | some n => return (place, n)
  | none => throw .notFound

/-- The bytes of the file at a path. -/
def read (t : FileTree) (p : FilePath) : Except FileFault (List UInt8) := do
  match (← t.find p).2 with
  | .file bytes => return bytes
  | .directory => throw .isADirectory

/-- The files below a directory with their paths, which continue the path of the directory; those in which
a directory on the way has a name that is not wanted are left out.  All other directories are listed by
their paths, so one whose path is too long is a fault. -/
def filesBelow {ε : Type} (t : FileTree) (p : FilePath) (top : List String) (wanted : String → Bool)
    (unreadable : FilePath → FileFault → ε) : Except ε (List (FilePath × List UInt8)) :=
  (t.below top).filterMapM fun e => do
    let path := p.joinAll e.1
    match e.2 with
    | .file bytes => return if e.1.dropLast.all wanted then some (path, bytes) else none
    | .directory =>
      if e.1.all wanted then (check path).mapError (unreadable path)
      return none

/-! ## Changing a tree -/

/-- A change of a tree.  What was changed before a fault stays changed. -/
abbrev FileAction := EStateM FileFault FileTree Unit

/-- Makes a directory, where the one around it is there and it is missing itself.  The parts of its path
are given from the last one on, with the place they start from. -/
def makeDirectory (start : List String) : List String → FileAction
  | [] => throw .alreadyExists
  | last :: around => do
    let t ← get
    let target ← MonadExcept.ofExcept do
      t.step (← around.reverse.foldlM t.step start) last
    if (t.node? target).isSome ∨ !(FilePath.component? last matches some (.name _)) then
      throw .alreadyExists
    set (t.put target .directory)

/-- Whether parts of a path, from the last one on, lead to a directory. -/
def isDirectory (t : FileTree) (start parts : List String) : Bool :=
  match parts.reverse.foldlM t.step start with
  | .ok place => t.node? place = some .directory
  | .error _ => false

/-- Makes a directory as `makeDirectory` does, unless it is there already. -/
def ensureDirectory (start parts : List String) : FileAction := do
  try makeDirectory start parts
  catch fault =>
    if fault = .alreadyExists ∧ (← get).isDirectory start parts then return () else throw fault

/-- Makes a directory and those around it, as far as they are missing. -/
def ensureDirectories (start : List String) : List String → FileAction
  | [] => return ()
  | last :: around => do
    if FilePath.component? last = none then ensureDirectories start around
    else
      try ensureDirectory start (last :: around)
      catch fault =>
        if fault ≠ .notFound then throw fault
        ensureDirectories start around
        ensureDirectory start (last :: around)

/-- Makes the directory of a path and those around it, as far as they are missing. -/
def makeDirectories (p : FilePath) : FileAction := do
  if p.text ≠ "" then
    MonadExcept.ofExcept (check p)
    ensureDirectories ((← get).start p) p.segments.reverse

/-- Writes a file in a directory that is there.  A path that ends in a separator is that of a directory,
whatever its last name is. -/
def write (p : FilePath) (bytes : List UInt8) : FileAction := do
  let t ← get
  MonadExcept.ofExcept (check p)
  let named := (p.segments.reverse.dropWhile (· = "")).reverse
  match named.getLast? with
  | none => throw .isADirectory
  | some last =>
    let around ← MonadExcept.ofExcept do
      t.step (← named.dropLast.foldlM t.step (t.start p)) "."
    if p.segments.getLast? ≠ some last then throw .isADirectory
    let target ← MonadExcept.ofExcept (t.step around last)
    if t.node? target = some .directory then throw .isADirectory
    set (t.put target (.file bytes))

/-- Empties a directory.  One that is missing is empty. -/
def clean (p : FilePath) : FileAction := do
  let t ← get
  match t.find p with
  | .ok (top, .directory) => set (t.clear top)
  | .ok (_, .file _) => throw .notADirectory
  | .error .notFound => return ()
  | .error fault => throw fault

end FileTree

end ServiceCatalog
