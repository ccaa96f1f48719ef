import ServiceCatalog.Name.ClassName
import ServiceCatalog.Registry.DirectedGraph

/-!
# Supertypes in a graph

The supertypes of classes as the edges of a graph, in which every class that was mentioned has a node.  The closure
of a class is remembered when it is asked for, until an edge is added.

* `DirectedGraph.traverse`: the nodes that a node leads to, breadth first.
* `SupertypeStore.add`, `direct`, `closure`: declaring a supertype, and asking for the direct ones and for all.
* `SupertypeStore.call`: what can be asked of a store, with the answer and the store behind it.
-/

namespace ServiceCatalog

/-! ## Traversing a graph -/

namespace DirectedGraph

variable {G α : Type} [DirectedGraph G α]

/-- The neighbors of a node, by the earliest edge first. -/
def successors (g : G) (n : Nat) : List Nat := (neighbors g n).reverse

/-- The visited nodes and the queue, with one more node in both unless it was visited before. -/
def enqueue (state : List Nat × List Nat) (n : Nat) : List Nat × List Nat :=
  if n ∈ state.1 then state else (n :: state.1, state.2 ++ [n])

/-- The nodes that were not visited. -/
def unvisited (g : G) (visited : List Nat) : List Nat := (List.range (order g)).filter (· ∉ visited)

theorem visited_subset_enqueueAll (l : List Nat) (state : List Nat × List Nat) :
    state.1 ⊆ (l.foldl enqueue state).1 := by
  induction l generalizing state with
  | nil => exact fun _ hm => hm
  | cons n l ih =>
    have hstep : state.1 ⊆ (enqueue state n).1 := by
      intro m hm
      rw [enqueue]
      split
      · exact hm
      · exact List.mem_cons_of_mem n hm
    exact fun m hm => ih (enqueue state n) (hstep hm)

theorem mem_enqueueAll {l : List Nat} {n : Nat} (hn : n ∈ l) (state : List Nat × List Nat) :
    n ∈ (l.foldl enqueue state).1 := by
  induction l generalizing state with
  | nil => exact absurd hn List.not_mem_nil
  | cons m l ih =>
    rcases List.mem_cons.mp hn with rfl | hn
    · have hstep : n ∈ (enqueue state n).1 := by
        rw [enqueue]
        split
        · next hmem => exact hmem
        · exact List.mem_cons_self ..
      exact visited_subset_enqueueAll l _ hstep
    · exact ih hn _

theorem enqueueAll_of_visited {l : List Nat} {state : List Nat × List Nat} (h : ∀ n ∈ l, n ∈ state.1) :
    l.foldl enqueue state = state := by
  induction l with
  | nil => rfl
  | cons n l ih =>
    obtain ⟨hn, hl⟩ := List.forall_mem_cons.mp h
    rw [List.foldl_cons, enqueue, if_pos hn]
    exact ih hl

theorem length_unvisited_lt {g : G} {visited visited' : List Nat} (hsub : visited ⊆ visited') {n : Nat}
    (hlt : n < order g) (hn : n ∉ visited) (hn' : n ∈ visited') :
    (unvisited g visited').length < (unvisited g visited).length := by
  have hfilter : unvisited g visited' = (unvisited g visited).filter (· ∉ visited') := by
    rw [unvisited, unvisited, List.filter_filter]
    refine List.filter_congr fun m _ => ?_
    by_cases hm : m ∈ visited
    · simp [hm, hsub hm]
    · simp [hm]
  rw [hfilter, List.length_filter_lt_length_iff_exists]
  exact ⟨n, by simp [unvisited, hlt, hn], by simp [hn']⟩

/-- The nodes in a queue, and behind them those that they lead to, apart from the visited ones. -/
def traverse (g : G) (visited queue : List Nat) : List Nat :=
  match queue with
  | [] => []
  | n :: queue =>
    let next := (successors g n).foldl enqueue (visited, queue)
    n :: traverse g next.1 next.2
termination_by ((unvisited g visited).length, queue.length)
decreasing_by
  by_cases hall : ∀ m ∈ successors g n, m ∈ visited
  · have hsame : (successors g n).foldl enqueue (visited, queue) = (visited, queue) := enqueueAll_of_visited hall
    rw [hsame]
    exact Prod.Lex.right _ (by simp)
  · obtain ⟨m, hm, hnew⟩ : ∃ m ∈ successors g n, m ∉ visited := by simpa using hall
    have hlt : m < order g := lt_order_of_mem_neighbors g n m (List.mem_reverse.mp hm)
    exact Prod.Lex.left _ _
      (length_unvisited_lt (visited_subset_enqueueAll _ (visited, queue)) hlt hnew (mem_enqueueAll hm _))

end DirectedGraph

/-! ## The supertypes of classes -/

/-- A graph of classes, the nodes of the classes, and the closures that were asked for. -/
structure SupertypeStore (G : Type) where
  graph : G
  numbers : List (ClassName × Nat)
  remembered : List (Nat × List ClassName)

/-- What can be asked of a store of supertypes. -/
inductive SupertypeCall where
  | add (sub super : ClassName)
  | direct (c : ClassName)
  | closure (c : ClassName)
  deriving DecidableEq, Repr

/-- The supertype that a call declares. -/
def SupertypeCall.edges : SupertypeCall → List (ClassName × ClassName)
  | .add sub super => [(sub, super)]
  | .direct _ => []
  | .closure _ => []

namespace SupertypeStore

open DirectedGraph (value? hasEdge addNode addEdge successors traverse)

variable {G : Type} [DirectedGraph G ClassName]

/-- The store without classes. -/
def empty : SupertypeStore G := ⟨DirectedGraph.empty, [], []⟩

/-- The node of a class, which is added if it is missing. -/
def number (s : SupertypeStore G) (c : ClassName) : Nat × SupertypeStore G :=
  match s.numbers.lookup c with
  | some n => (n, s)
  | none =>
    let (n, graph) := addNode s.graph c
    (n, { s with graph, numbers := (c, n) :: s.numbers })

/-- Declares a direct supertype.  A class is none of its own, and a second declaration adds nothing. -/
def add (s : SupertypeStore G) (sub super : ClassName) : SupertypeStore G :=
  let (n, s) := s.number sub
  let (m, s) := s.number super
  if n ≠ m ∧ !hasEdge s.graph n m then { s with graph := addEdge s.graph n m, remembered := [] } else s

/-- The classes of nodes. -/
def classesAt (s : SupertypeStore G) (nodes : List Nat) : List ClassName := nodes.filterMap (value? s.graph)

/-- The direct supertypes of a class, in the order of their declaration. -/
def direct (s : SupertypeStore G) (c : ClassName) : List ClassName :=
  match s.numbers.lookup c with
  | none => []
  | some n => s.classesAt (successors s.graph n)

/-- The class itself and all its supertypes, breadth first, and the store that remembers them. -/
def closure (s : SupertypeStore G) (c : ClassName) : List ClassName × SupertypeStore G :=
  match s.numbers.lookup c with
  | none => ([c], s)
  | some n =>
    match s.remembered.lookup n with
    | some supers => (supers, s)
    | none =>
      let supers := s.classesAt (traverse s.graph [n] [n])
      (supers, { s with remembered := (n, supers) :: s.remembered })

/-- The answer to a call, and the store behind it. -/
def call (s : SupertypeStore G) : SupertypeCall → List ClassName × SupertypeStore G
  | .add sub super => ([], s.add sub super)
  | .direct c => (s.direct c, s)
  | .closure c => s.closure c

/-- The store behind several calls. -/
def afterCalls (s : SupertypeStore G) (calls : List SupertypeCall) : SupertypeStore G :=
  calls.foldl (fun s c => (s.call c).2) s

end SupertypeStore

end ServiceCatalog
