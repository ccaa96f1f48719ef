/-!
# Directed graphs

A graph has numbered nodes, each with a value, and edges between them.  `DirectedGraph` is what the supertypes of
classes need of a library of graphs: its operations, and what its documentation says of them.  Nodes are numbered
in the order in which they are added, and the neighbors of a node come by the latest edge first.

* `DirectedGraph`: the operations with their laws.
* `EdgeList`: graphs as lists of values and of edges.
-/

namespace ServiceCatalog

/-- Graphs whose nodes have values, and what can be done with them. -/
class DirectedGraph (G : Type) (α : outParam Type) where
  /-- The graph without nodes. -/
  empty : G
  /-- The number of nodes. -/
  order : G → Nat
  /-- The value of a node. -/
  value? : G → Nat → Option α
  /-- The nodes that edges from a node lead to, by the latest edge first. -/
  neighbors : G → Nat → List Nat
  /-- Whether an edge leads from a node to another one. -/
  hasEdge : G → Nat → Nat → Bool
  /-- The graph with one more node, and the number of the node. -/
  addNode : G → α → Nat × G
  /-- The graph with one more edge. -/
  addEdge : G → Nat → Nat → G
  order_empty : order empty = 0
  isSome_value?_iff : ∀ g n, (value? g n).isSome ↔ n < order g
  neighbors_eq_nil : ∀ g n, order g ≤ n → neighbors g n = []
  lt_order_of_mem_neighbors : ∀ g n m, m ∈ neighbors g n → m < order g
  hasEdge_iff : ∀ g n m, hasEdge g n m ↔ m ∈ neighbors g n
  number_addNode : ∀ g a, (addNode g a).1 = order g
  order_addNode : ∀ g a, order (addNode g a).2 = order g + 1
  value?_addNode : ∀ g a n, value? (addNode g a).2 n = if n = order g then some a else value? g n
  neighbors_addNode : ∀ g a n, neighbors (addNode g a).2 n = neighbors g n
  order_addEdge : ∀ g n m, order (addEdge g n m) = order g
  value?_addEdge : ∀ g n m k, value? (addEdge g n m) k = value? g k
  neighbors_addEdge : ∀ g n m k, n < order g → m < order g →
    neighbors (addEdge g n m) k = if k = n then m :: neighbors g k else neighbors g k

/-- A graph as the list of the values of its nodes and the list of its edges, the latest edge first. -/
structure EdgeList (α : Type) where
  values : List α
  edges : List (Nat × Nat)
  lt_of_mem_edges : ∀ e ∈ edges, e.1 < values.length ∧ e.2 < values.length

namespace EdgeList

variable {α : Type}

/-- The nodes that edges from a node lead to. -/
def neighbors (g : EdgeList α) (n : Nat) : List Nat := (g.edges.filter fun e => e.1 = n).map Prod.snd

/-- The graph with one more node. -/
def addNode (g : EdgeList α) (a : α) : EdgeList α where
  values := g.values ++ [a]
  edges := g.edges
  lt_of_mem_edges e he := by
    have hlt := g.lt_of_mem_edges e he
    rw [List.length_append, List.length_singleton]
    omega

/-- The graph with one more edge, if it leads from a node of the graph to one. -/
def addEdge (g : EdgeList α) (n m : Nat) : EdgeList α :=
  if h : n < g.values.length ∧ m < g.values.length then
    { values := g.values
      edges := (n, m) :: g.edges
      lt_of_mem_edges := by
        intro e he
        rcases List.mem_cons.mp he with rfl | he
        · exact h
        · exact g.lt_of_mem_edges e he }
  else g

theorem mem_neighbors {g : EdgeList α} {n m : Nat} : m ∈ g.neighbors n ↔ (n, m) ∈ g.edges := by
  simp [neighbors]

instance : DirectedGraph (EdgeList α) α where
  empty := ⟨[], [], by simp⟩
  order g := g.values.length
  value? g n := g.values[n]?
  neighbors := neighbors
  hasEdge g n m := g.edges.contains (n, m)
  addNode g a := (g.values.length, g.addNode a)
  addEdge := addEdge
  order_empty := rfl
  isSome_value?_iff g n := by simp
  neighbors_eq_nil g n hn := by
    refine List.eq_nil_iff_forall_not_mem.mpr fun m hm => ?_
    have hlt := g.lt_of_mem_edges _ (mem_neighbors.mp hm)
    omega
  lt_order_of_mem_neighbors g n m hm := (g.lt_of_mem_edges _ (mem_neighbors.mp hm)).2
  hasEdge_iff g n m := by rw [List.contains_iff_mem, mem_neighbors]
  number_addNode g a := rfl
  order_addNode g a := by simp [addNode]
  value?_addNode g a n := by
    by_cases hn : n = g.values.length
    · simp [addNode, hn]
    · rw [if_neg hn]
      by_cases hlt : n < g.values.length
      · exact List.getElem?_append_left hlt
      · rw [List.getElem?_eq_none (by simp [addNode]; omega), List.getElem?_eq_none (by omega)]
  neighbors_addNode g a n := rfl
  order_addEdge g n m := by
    unfold addEdge
    split <;> rfl
  value?_addEdge g n m k := by
    unfold addEdge
    split <;> rfl
  neighbors_addEdge g n m k hn hm := by
    rw [addEdge, dif_pos ⟨hn, hm⟩]
    by_cases hk : k = n
    · simp [neighbors, hk]
    · simp [neighbors, hk, Ne.symm hk]

end EdgeList

end ServiceCatalog
