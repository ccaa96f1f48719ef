import ServiceCatalog.Name.Dotted

/-!
# The tree of packages

Packages contain packages, and each holds some data.  A node is a number: 0 is the root, and every
further node is one more than the number of nodes before it.  It knows its parent, which is always an
earlier node, so the way up from any node ends at the root.

A path is looked up from the root, and creating a path adds only the nodes that are missing.
-/

namespace ServiceCatalog

/-- A package inside another one. -/
structure PackageNode (α : Type) where
  parent : Nat
  name : String
  data : α
  deriving Repr

/-- A tree of packages.  The node with number `i + 1` is the `i`-th of `nodes`. -/
structure PackageTree (α : Type) where
  rootData : α
  nodes : List (PackageNode α)
  deriving Repr

namespace PackageTree

variable {α : Type}

/-- The tree of the root alone. -/
def single (data : α) : PackageTree α := ⟨data, []⟩

/-- The number of packages, the root included. -/
def size (t : PackageTree α) : Nat := t.nodes.length + 1

/-- The package of a given name inside a package.  It is behind the package that it is in. -/
def child? (t : PackageTree α) (parent : Nat) (name : String) : Option Nat :=
  ((t.nodes.drop parent).findIdx? fun n => n.parent = parent && n.name = name).map (· + parent + 1)

/-- The package that a path leads to from a given one. -/
def descend? (t : PackageTree α) (start : Nat) : List String → Option Nat
  | [] => some start
  | name :: path => (t.child? start name).bind fun next => t.descend? next path

/-- The package that a path leads to from the root. -/
def find? (t : PackageTree α) (path : List String) : Option Nat := t.descend? 0 path

/-- The data of a package. -/
def data? (t : PackageTree α) : Nat → Option α
  | 0 => some t.rootData
  | i + 1 => (t.nodes[i]?).map PackageNode.data

/-- The names on the way from the root to a package. -/
def pathOf (t : PackageTree α) : Nat → List String
  | 0 => []
  | i + 1 =>
    match t.nodes[i]? with
    | none => []
    | some n => if n.parent ≤ i then t.pathOf n.parent ++ [n.name] else [n.name]

/-- The package of a given name inside a package, which is added if it is missing. -/
def ensureChild (t : PackageTree α) (fresh : α) (parent : Nat) (name : String) : Nat × PackageTree α :=
  match t.child? parent name with
  | some node => (node, t)
  | none => (t.size, ⟨t.rootData, t.nodes ++ [⟨parent, name, fresh⟩]⟩)

/-- The package that a path leads to from a given one, with what is missing added. -/
def ensureFrom (t : PackageTree α) (fresh : α) (start : Nat) : List String → Nat × PackageTree α
  | [] => (start, t)
  | name :: path =>
    let (next, t) := t.ensureChild fresh start name
    t.ensureFrom fresh next path

/-- The package that a path leads to from the root, with what is missing added. -/
def ensure (t : PackageTree α) (fresh : α) (path : List String) : Nat × PackageTree α :=
  t.ensureFrom fresh 0 path

/-- The tree with the data of a package changed. -/
def modify (t : PackageTree α) (f : α → α) : Nat → PackageTree α
  | 0 => ⟨f t.rootData, t.nodes⟩
  | i + 1 => ⟨t.rootData, t.nodes.modify i fun n => { n with data := f n.data }⟩

/-- The data of all packages. -/
def allData (t : PackageTree α) : List α := t.rootData :: t.nodes.map PackageNode.data

end PackageTree

end ServiceCatalog
