/-!
# Directed graphs with labelled edges

A graph has numbered nodes, each with a value, and edges between them, each with a label.  `LabelledGraph` is what the
packages need of a library of graphs: its operations, and what its documentation says of them.  Nodes are numbered in
the order in which they are added; in which order the edges of a node come is left open.

* `LabelledGraph`: the operations with their laws.
* `LabelledEdgeList`: graphs as lists of values and of edges.
-/

namespace ServiceCatalog

/-- Graphs whose nodes have values and whose edges have labels, and what can be done with them. -/
class LabelledGraph (G : Type) (ν ε : outParam Type) where
  /-- The graph without nodes. -/
  empty : G
  /-- The number of nodes. -/
  order : G → Nat
  /-- The value of a node. -/
  value? : G → Nat → Option ν
  /-- The edges from a node: their labels and where they lead. -/
  outgoing : G → Nat → List (ε × Nat)
  /-- The edges to a node: their labels and where they come from. -/
  incoming : G → Nat → List (ε × Nat)
  /-- The graph with one more node, and the number of the node. -/
  addNode : G → ν → Nat × G
  /-- The graph with one more edge. -/
  addEdge : G → Nat → Nat → ε → G
  order_empty : order empty = 0
  isSome_value?_iff : ∀ g n, (value? g n).isSome ↔ n < order g
  lt_order_of_mem_outgoing : ∀ g n l m, (l, m) ∈ outgoing g n → n < order g ∧ m < order g
  mem_incoming_iff : ∀ g n l m, (l, n) ∈ incoming g m ↔ (l, m) ∈ outgoing g n
  number_addNode : ∀ g a, (addNode g a).1 = order g
  order_addNode : ∀ g a, order (addNode g a).2 = order g + 1
  value?_addNode : ∀ g a n, value? (addNode g a).2 n = if n = order g then some a else value? g n
  mem_outgoing_addNode : ∀ g a n l m, (l, m) ∈ outgoing (addNode g a).2 n ↔ (l, m) ∈ outgoing g n
  order_addEdge : ∀ g n m l, order (addEdge g n m l) = order g
  value?_addEdge : ∀ g n m l k, value? (addEdge g n m l) k = value? g k
  mem_outgoing_addEdge : ∀ g n m l, n < order g → m < order g → ∀ n' l' m',
    (l', m') ∈ outgoing (addEdge g n m l) n' ↔ (n' = n ∧ l' = l ∧ m' = m) ∨ (l', m') ∈ outgoing g n'

/-- A graph as the list of the values of its nodes and the list of its edges, the latest edge first. -/
structure LabelledEdgeList (ν ε : Type) where
  values : List ν
  edges : List (Nat × ε × Nat)
  lt_of_mem_edges : ∀ e ∈ edges, e.1 < values.length ∧ e.2.2 < values.length

namespace LabelledEdgeList

variable {ν ε : Type}

/-- The edges from a node. -/
def outgoing (g : LabelledEdgeList ν ε) (n : Nat) : List (ε × Nat) :=
  (g.edges.filter fun e => e.1 = n).map fun e => (e.2.1, e.2.2)

/-- The edges to a node. -/
def incoming (g : LabelledEdgeList ν ε) (m : Nat) : List (ε × Nat) :=
  (g.edges.filter fun e => e.2.2 = m).map fun e => (e.2.1, e.1)

/-- The graph with one more node. -/
def addNode (g : LabelledEdgeList ν ε) (a : ν) : LabelledEdgeList ν ε where
  values := g.values ++ [a]
  edges := g.edges
  lt_of_mem_edges e he := by
    have hlt := g.lt_of_mem_edges e he
    rw [List.length_append, List.length_singleton]
    omega

/-- The graph with one more edge, if it leads from a node of the graph to one. -/
def addEdge (g : LabelledEdgeList ν ε) (n m : Nat) (l : ε) : LabelledEdgeList ν ε :=
  if h : n < g.values.length ∧ m < g.values.length then
    { values := g.values
      edges := (n, l, m) :: g.edges
      lt_of_mem_edges := by
        intro e he
        rcases List.mem_cons.mp he with rfl | he
        · exact h
        · exact g.lt_of_mem_edges e he }
  else g

theorem mem_outgoing {g : LabelledEdgeList ν ε} {n m : Nat} {l : ε} :
    (l, m) ∈ g.outgoing n ↔ (n, l, m) ∈ g.edges := by
  simp [outgoing]

theorem mem_incoming {g : LabelledEdgeList ν ε} {n m : Nat} {l : ε} :
    (l, n) ∈ g.incoming m ↔ (n, l, m) ∈ g.edges := by
  constructor
  · intro h
    obtain ⟨⟨n', l', m'⟩, he, heq⟩ := List.mem_map.mp h
    obtain ⟨hmem, hm⟩ := List.mem_filter.mp he
    obtain ⟨rfl, rfl⟩ := Prod.mk.inj heq
    obtain rfl : m' = m := of_decide_eq_true hm
    exact hmem
  · intro h
    exact List.mem_map.mpr ⟨(n, l, m), List.mem_filter.mpr ⟨h, decide_eq_true rfl⟩, rfl⟩

instance : LabelledGraph (LabelledEdgeList ν ε) ν ε where
  empty := ⟨[], [], by simp⟩
  order g := g.values.length
  value? g n := g.values[n]?
  outgoing := outgoing
  incoming := incoming
  addNode g a := (g.values.length, g.addNode a)
  addEdge := addEdge
  order_empty := rfl
  isSome_value?_iff g n := by simp
  lt_order_of_mem_outgoing g n l m hm := g.lt_of_mem_edges _ (mem_outgoing.mp hm)
  mem_incoming_iff g n l m := by rw [mem_incoming, mem_outgoing]
  number_addNode g a := rfl
  order_addNode g a := by simp [addNode]
  value?_addNode g a n := by
    by_cases hn : n = g.values.length
    · simp [addNode, hn]
    · rw [if_neg hn]
      by_cases hlt : n < g.values.length
      · exact List.getElem?_append_left hlt
      · rw [List.getElem?_eq_none (by simp [addNode]; omega), List.getElem?_eq_none (by omega)]
  mem_outgoing_addNode g a n l m := Iff.rfl
  order_addEdge g n m l := by
    unfold addEdge
    split <;> rfl
  value?_addEdge g n m l k := by
    unfold addEdge
    split <;> rfl
  mem_outgoing_addEdge g n m l hn hm n' l' m' := by
    rw [mem_outgoing, mem_outgoing, addEdge, dif_pos ⟨hn, hm⟩, List.mem_cons, Prod.mk.injEq, Prod.mk.injEq]

end LabelledEdgeList

end ServiceCatalog
