import Mathlib.Computability.StateTransition
import ServiceCatalog.Name.Dotted
import ServiceCatalog.Registry.LabelledGraph

/-!
# Packages in a graph

The packages as the nodes of a directed graph.  An edge leads from a package to each one directly inside it, under the
simple name of that one.  Nothing in such a graph makes it a tree: it is one as long as paths are only created from the
root.

The way up from a node follows an edge backwards until there is none.  In a graph with a cycle it would not end, so it
is a loop without a bound, and its answer is partial.

* `PackageGraph.find?`, `ensure`: looking up and creating a path from the root.
* `PackageGraph.name`: the name of a package, read off on the way up.
-/

namespace ServiceCatalog

/-- A graph of packages and its root, the unnamed package. -/
structure PackageGraph (G : Type) where
  graph : G
  root : Nat

namespace PackageGraph

open LabelledGraph (order value? outgoing incoming addNode addEdge)

variable {G α : Type} [LabelledGraph G α String]

/-- The graph of the root alone. -/
def single (data : α) : PackageGraph G :=
  let (root, graph) := addNode LabelledGraph.empty data
  ⟨graph, root⟩

/-- The number of packages, the root included. -/
def count (t : PackageGraph G) : Nat := order t.graph

/-- The data of a package. -/
def data? (t : PackageGraph G) (node : Nat) : Option α := value? t.graph node

/-- The package of a given name directly inside a package. -/
def child? (t : PackageGraph G) (parent : Nat) (name : String) : Option Nat :=
  ((outgoing t.graph parent).find? fun edge => edge.1 = name).map Prod.snd

/-- The package that a package is directly inside of, and its name there. -/
def parent? (t : PackageGraph G) (node : Nat) : Option (String × Nat) := (incoming t.graph node).head?

/-- The package of a given name inside a package, which is added if it is missing. -/
def ensureChild (t : PackageGraph G) (fresh : α) (parent : Nat) (name : String) : Nat × PackageGraph G :=
  match t.child? parent name with
  | some child => (child, t)
  | none =>
    let (child, graph) := addNode t.graph fresh
    (child, ⟨addEdge graph parent child name, t.root⟩)

/-- The package that a path leads to from a given one, with what is missing added. -/
def ensureFrom (t : PackageGraph G) (fresh : α) (start : Nat) : List String → Nat × PackageGraph G
  | [] => (start, t)
  | name :: path =>
    let (next, t) := t.ensureChild fresh start name
    t.ensureFrom fresh next path

/-- The package that a path leads to from the root, with what is missing added. -/
def ensure (t : PackageGraph G) (fresh : α) (path : List String) : Nat × PackageGraph G :=
  t.ensureFrom fresh t.root path

/-- The package that a path leads to from a given one. -/
def descend? (t : PackageGraph G) (start : Nat) : List String → Option Nat
  | [] => some start
  | name :: path => (t.child? start name).bind fun next => t.descend? next path

/-- The package that a path leads to from the root. -/
def find? (t : PackageGraph G) (path : List String) : Option Nat := t.descend? t.root path

/-- One step of the way up, from a package and the names passed before. -/
def stepUp (t : PackageGraph G) : Nat × List String → Option (Nat × List String)
  | (node, passed) => (t.parent? node).map fun (name, parent) => (parent, passed ++ [name])

/-- The name of a package, which is defined if the way up from it ends. -/
def name (t : PackageGraph G) (node : Nat) : Part DottedName :=
  (StateTransition.eval t.stepUp (node, [])).map fun last => ⟨last.2.reverse⟩

/-- The graph after paths were created one after the other, beginning with the root alone. -/
def afterCreating (fresh : α) (created : List (List String)) : PackageGraph G :=
  created.foldl (fun t path => (t.ensure fresh path).2) (single fresh)

end PackageGraph

end ServiceCatalog
