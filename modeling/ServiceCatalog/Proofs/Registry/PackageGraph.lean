import Mathlib.Data.Finset.Card
import Mathlib.Data.List.Infix
import ServiceCatalog.Proofs.Registry.PackageTree
import ServiceCatalog.Registry.PackageGraph

/-!
# The graph of packages is a tree

A graph in which paths were created from the root holds a `PackageTree` (`PackageGraph.Shows`): its edges are the
steps from a package to one inside it.  In a tree a package is inside one package only, and behind it, so the way up
in the graph is the path of the tree backwards and ends at the root.

* `PackageTree.isSome_find?_afterCreating`: which paths lead to a package.
* `PackageTree.pathOf_of_find?`, `PackageTree.Reached.find?_pathOf`: the paths and the packages are in one-to-one
  correspondence, and so there are as many packages as paths (`PackageTree.size_afterCreating`).
* `PackageGraph.Shows.ensure`: creating a path does the same in the graph and in the tree.
* `PackageGraph.Shows.name`: the loop from a package up to the root ends with the path of the package.
* `PackageGraph.agrees_with_tree`, `PackageGraph.indexed_by_paths`: what holds after any paths were created.
-/

namespace ServiceCatalog

/-! ## Trees -/

namespace PackageTree

variable {α : Type} {t : PackageTree α}

/-- The path that leads to a package is read off its node. -/
theorem pathOf_of_find? {p : List String} {node : Nat} (h : t.find? p = some node) : t.pathOf node = p := by
  induction p using List.reverseRecOn generalizing node with
  | nil =>
    obtain rfl : 0 = node := Option.some.inj h
    rw [pathOf]
  | append_singleton p x ih =>
    rw [find?_concat, Option.bind_eq_some_iff] at h
    obtain ⟨parent, hparent, hx⟩ := h
    obtain ⟨i, n, rfl, hle, hn, rfl, rfl⟩ := exists_node_of_child? hx
    rw [pathOf, hn]
    simp only [if_pos hle, ih hparent]

/-- Whether a path leads to each package. -/
def Reached (t : PackageTree α) : Prop := ∀ node < t.size, ∃ p, t.find? p = some node

/-- The path that is read off a node leads to it. -/
theorem Reached.find?_pathOf (h : t.Reached) {node : Nat} (hnode : node < t.size) :
    t.find? (t.pathOf node) = some node := by
  obtain ⟨p, hp⟩ := h node hnode
  rw [pathOf_of_find? hp, hp]

theorem reached_single (d : α) : (single d).Reached := by
  intro node hnode
  obtain rfl : node = 0 := Nat.lt_one_iff.mp hnode
  exact ⟨[], rfl⟩

theorem Reached.ensureChild (h : t.Reached) (fresh : α) {p : List String} {parent : Nat}
    (hp : t.find? p = some parent) (x : String) : (t.ensureChild fresh parent x).2.Reached := by
  intro node hnode
  by_cases hold : node < t.size
  · obtain ⟨q, hq⟩ := h node hold
    exact ⟨q, find?_ensureChild_of_find? fresh hp x hq⟩
  · -- the only package that is not an old one is the child
    refine ⟨p ++ [x], ?_⟩
    rw [find?_ensureChild fresh hp, if_pos rfl, PackageTree.ensureChild]
    rw [PackageTree.ensureChild] at hnode
    cases hx : t.child? parent x with
    | some c =>
      rw [hx] at hnode
      exact absurd hnode hold
    | none =>
      rw [hx] at hnode
      simp only [size, List.length_append, List.length_singleton] at hnode hold ⊢
      rw [Option.some_inj]
      omega

theorem Reached.ensure (h : t.Reached) (fresh : α) (path : List String) : (t.ensure fresh path).2.Reached := by
  induction path using List.reverseRecOn with
  | nil => exact h
  | append_singleton p x ih =>
    rw [ensure_concat]
    exact ih.ensureChild fresh (find?_ensure fresh p) x

/-- There is data at the end of the paths that lead to a package. -/
theorem isSome_at?_iff (q : List String) : (t.at? q).isSome ↔ (t.find? q).isSome := by
  cases hq : t.find? q with
  | none => simp [at?, hq]
  | some node =>
    obtain ⟨d, hd⟩ := exists_data_of_lt_size (lt_size_of_find? hq)
    simp [at?, hq, hd]

theorem isSome_find?_ensure (fresh : α) (path q : List String) :
    ((t.ensure fresh path).2.find? q).isSome ↔ q <+: path ∨ (t.find? q).isSome := by
  rw [← isSome_at?_iff, ← isSome_at?_iff, at?_ensure]
  by_cases hq : q <+: path
  · simp [hq]
  · simp [hq]

theorem lt_size_ensureChild (fresh : α) (parent : Nat) (x : String) :
    (t.ensureChild fresh parent x).1 < (t.ensureChild fresh parent x).2.size := by
  rw [PackageTree.ensureChild]
  cases hx : t.child? parent x with
  | some node => exact lt_size_of_child? hx
  | none =>
    rw [size, size, List.length_append, List.length_singleton]
    exact Nat.lt_succ_self _

/-- The tree after paths were created one after the other, beginning with the root alone. -/
def afterCreating (fresh : α) (created : List (List String)) : PackageTree α :=
  created.foldl (fun t path => (t.ensure fresh path).2) (single fresh)

theorem afterCreating_concat (fresh : α) (created : List (List String)) (path : List String) :
    afterCreating fresh (created ++ [path]) = ((afterCreating fresh created).ensure fresh path).2 := by
  rw [afterCreating, List.foldl_append]
  rfl

theorem reached_afterCreating (fresh : α) (created : List (List String)) : (afterCreating fresh created).Reached := by
  induction created using List.reverseRecOn with
  | nil => exact reached_single fresh
  | append_singleton created path ih =>
    rw [afterCreating_concat]
    exact ih.ensure fresh path

/-- The paths that lead to a package are the empty one and what created paths begin with. -/
theorem isSome_find?_afterCreating (fresh : α) (created : List (List String)) (q : List String) :
    ((afterCreating fresh created).find? q).isSome ↔ q = [] ∨ ∃ path ∈ created, q <+: path := by
  induction created using List.reverseRecOn with
  | nil =>
    cases q with
    | nil => simp
    | cons x q => simp [afterCreating, single, find?, descend?, child?]
  | append_singleton created path ih =>
    rw [afterCreating_concat, isSome_find?_ensure, ih]
    simp only [List.mem_append, List.mem_singleton, or_and_right, exists_or, exists_eq_left]
    rw [or_comm, or_assoc]

/-- The distinct non-empty beginnings of paths. -/
def beginnings (created : List (List String)) : Finset (List String) :=
  ((created.flatMap List.inits).filter (· ≠ [])).toFinset

theorem mem_beginnings {created : List (List String)} {q : List String} :
    q ∈ beginnings created ↔ q ≠ [] ∧ ∃ path ∈ created, q <+: path := by
  simp [beginnings, and_comm]

theorem mem_insert_nil_beginnings (fresh : α) {created : List (List String)} {q : List String} :
    q ∈ insert [] (beginnings created) ↔ ((afterCreating fresh created).find? q).isSome := by
  rw [isSome_find?_afterCreating, Finset.mem_insert, mem_beginnings]
  by_cases hq : q = [] <;> simp [hq]

/-- There is one package for each beginning of a created path, and the root. -/
theorem size_afterCreating (fresh : α) (created : List (List String)) :
    (afterCreating fresh created).size = 1 + (beginnings created).card := by
  have hroot : [] ∉ beginnings created := fun h => (mem_beginnings.mp h).1 rfl
  rw [Nat.add_comm, ← Finset.card_insert_of_notMem hroot, ← Finset.card_range (afterCreating fresh created).size]
  refine Finset.card_nbij' (fun node => (afterCreating fresh created).pathOf node)
    (fun q => ((afterCreating fresh created).find? q).getD 0) ?_ ?_ ?_ ?_
  · intro node hnode
    rw [Finset.mem_coe, mem_insert_nil_beginnings fresh,
      (reached_afterCreating fresh created).find?_pathOf (Finset.mem_range.mp hnode)]
    rfl
  · intro q hq
    obtain ⟨node, hnode⟩ := Option.isSome_iff_exists.mp ((mem_insert_nil_beginnings fresh).mp hq)
    simp only [hnode, Option.getD_some]
    exact Finset.mem_coe.mpr (Finset.mem_range.mpr (lt_size_of_find? hnode))
  · intro node hnode
    simp only [(reached_afterCreating fresh created).find?_pathOf (Finset.mem_range.mp hnode), Option.getD_some]
  · intro q hq
    obtain ⟨node, hnode⟩ := Option.isSome_iff_exists.mp ((mem_insert_nil_beginnings fresh).mp hq)
    simp only [hnode, Option.getD_some, pathOf_of_find? hnode]

end PackageTree

/-! ## Graphs -/

namespace PackageGraph

open LabelledGraph (order value? outgoing incoming addNode addEdge)

variable {G α : Type} [LabelledGraph G α String] {g : PackageGraph G} {t : PackageTree α}

/-- Whether a graph holds a tree: it has the same packages, and an edge for each step from one to another. -/
structure Shows (g : PackageGraph G) (t : PackageTree α) : Prop where
  root : g.root = 0
  count : g.count = t.size
  data : ∀ node, g.data? node = t.data? node
  mem_outgoing_iff : ∀ parent x node, (x, node) ∈ outgoing g.graph parent ↔ t.child? parent x = some node

/-- Creating a path that exists changes nothing. -/
theorem ensureFrom_of_descend? (fresh : α) {start node : Nat} {path : List String}
    (h : g.descend? start path = some node) : g.ensureFrom fresh start path = (node, g) := by
  induction path generalizing start with
  | nil =>
    obtain rfl : start = node := Option.some.inj h
    rfl
  | cons x path ih =>
    obtain ⟨next, hx, hpath⟩ := Option.bind_eq_some_iff.mp h
    rw [ensureFrom, ensureChild, hx]
    exact ih hpath

namespace Shows

theorem child? (h : g.Shows t) (parent : Nat) (x : String) : g.child? parent x = t.child? parent x := by
  rw [PackageGraph.child?]
  cases hfind : (outgoing g.graph parent).find? fun edge => edge.1 = x with
  | none =>
    rw [Option.map_none, eq_comm, Option.eq_none_iff_forall_ne_some]
    intro node hnode
    have hother := List.find?_eq_none.mp hfind _ ((h.mem_outgoing_iff parent x node).mpr hnode)
    exact hother (decide_eq_true rfl)
  | some edge =>
    obtain ⟨y, node⟩ := edge
    have hname := List.find?_some hfind
    obtain rfl : y = x := of_decide_eq_true hname
    exact ((h.mem_outgoing_iff parent y node).mp (List.mem_of_find?_eq_some hfind)).symm

/-- The steps to a package in the tree are the edges to it. -/
theorem mem_incoming_iff (h : g.Shows t) (parent : Nat) (x : String) (node : Nat) :
    (x, parent) ∈ incoming g.graph node ↔ t.child? parent x = some node := by
  rw [LabelledGraph.mem_incoming_iff, h.mem_outgoing_iff]

/-- A package that is inside another one is inside that one only. -/
theorem parent? (h : g.Shows t) {parent node : Nat} {x : String} (hx : t.child? parent x = some node) :
    g.parent? node = some (x, parent) := by
  have hmem : (x, parent) ∈ incoming g.graph node := (h.mem_incoming_iff parent x node).mpr hx
  rw [PackageGraph.parent?]
  cases hall : incoming g.graph node with
  | nil =>
    rw [hall] at hmem
    exact absurd hmem List.not_mem_nil
  | cons edge others =>
    obtain ⟨y, parent'⟩ := edge
    have hy : t.child? parent' y = some node :=
      (h.mem_incoming_iff parent' y node).mp (hall ▸ List.mem_cons_self ..)
    obtain ⟨rfl, rfl⟩ := PackageTree.child?_inj hx hy
    rfl

/-- No package is outside of the others but the root. -/
theorem parent?_root (h : g.Shows t) : g.parent? 0 = none := by
  rw [PackageGraph.parent?, List.head?_eq_none_iff, List.eq_nil_iff_forall_not_mem]
  rintro ⟨x, parent⟩ hmem
  exact Nat.not_lt_zero parent (PackageTree.lt_of_child? ((h.mem_incoming_iff parent x 0).mp hmem))

/-! ### Creating packages -/

theorem single (fresh : α) : (single fresh : PackageGraph G).Shows (.single fresh) := by
  have hnone : ∀ parent x node, (x, node) ∉ outgoing (addNode (LabelledGraph.empty : G) fresh).2 parent := by
    intro parent x node hmem
    have hlt := (LabelledGraph.lt_order_of_mem_outgoing _ _ _ _
      ((LabelledGraph.mem_outgoing_addNode (LabelledGraph.empty : G) fresh parent x node).mp hmem)).1
    rw [LabelledGraph.order_empty] at hlt
    exact Nat.not_lt_zero parent hlt
  have hvalue : ∀ node, value? (LabelledGraph.empty : G) node = none := by
    intro node
    rw [← Option.not_isSome_iff_eq_none, LabelledGraph.isSome_value?_iff, LabelledGraph.order_empty]
    exact Nat.not_lt_zero node
  refine ⟨?_, ?_, fun node => ?_, fun parent x node => iff_of_false (hnone parent x node) ?_⟩
  · exact (LabelledGraph.number_addNode _ _).trans LabelledGraph.order_empty
  · exact (LabelledGraph.order_addNode _ _).trans (congrArg (· + 1) LabelledGraph.order_empty)
  · rw [data?, PackageGraph.single, LabelledGraph.value?_addNode, LabelledGraph.order_empty, hvalue]
    cases node <;> rfl
  · simp [PackageTree.single, PackageTree.child?]

/-- Making a child does the same in the graph and in the tree. -/
theorem ensureChild (h : g.Shows t) (fresh : α) {parent : Nat} (hparent : parent < t.size) (x : String) :
    (g.ensureChild fresh parent x).1 = (t.ensureChild fresh parent x).1 ∧
      (g.ensureChild fresh parent x).2.Shows (t.ensureChild fresh parent x).2 := by
  rw [PackageGraph.ensureChild, PackageTree.ensureChild, h.child?]
  cases hx : t.child? parent x with
  | some node => exact ⟨rfl, h⟩
  | none =>
    have hnumber : (addNode g.graph fresh).1 = t.size := (LabelledGraph.number_addNode _ _).trans h.count
    have horder : order (addNode g.graph fresh).2 = t.size + 1 :=
      (LabelledGraph.order_addNode _ _).trans (congrArg (· + 1) h.count)
    show (addNode g.graph fresh).1 = t.size ∧
      Shows ⟨addEdge (addNode g.graph fresh).2 parent (addNode g.graph fresh).1 x, g.root⟩ _
    rw [hnumber]
    refine ⟨rfl, h.root, ?_, fun node => ?_, fun parent' y node => ?_⟩
    · rw [PackageGraph.count, LabelledGraph.order_addEdge, horder, PackageTree.size, PackageTree.size,
        List.length_append, List.length_singleton]
    · rw [data?, LabelledGraph.value?_addEdge, LabelledGraph.value?_addNode, show order g.graph = t.size from h.count,
        PackageTree.data?_append]
      split
      · rfl
      · exact h.data node
    · rw [LabelledGraph.mem_outgoing_addEdge _ _ _ _ (by omega) (by omega), LabelledGraph.mem_outgoing_addNode,
        h.mem_outgoing_iff, PackageTree.child?_append fresh hparent hx]
      by_cases hnew : parent' = parent ∧ y = x
      · obtain ⟨rfl, rfl⟩ := hnew
        rw [if_pos ⟨rfl, rfl⟩, hx, Option.some_inj]
        simp only [true_and, reduceCtorEq, or_false]
        exact eq_comm
      · rw [if_neg hnew]
        refine ⟨fun hor => ?_, .inr⟩
        rcases hor with ⟨hp, hy, -⟩ | hchild
        · exact absurd ⟨hp, hy⟩ hnew
        · exact hchild

theorem ensureFrom (h : g.Shows t) (fresh : α) {start : Nat} (hstart : start < t.size) (path : List String) :
    (g.ensureFrom fresh start path).1 = (t.ensureFrom fresh start path).1 ∧
      (g.ensureFrom fresh start path).2.Shows (t.ensureFrom fresh start path).2 := by
  induction path generalizing g t start with
  | nil => exact ⟨rfl, h⟩
  | cons x path ih =>
    obtain ⟨hnext, hshows⟩ := h.ensureChild fresh hstart x
    show ((g.ensureChild fresh start x).2.ensureFrom fresh (g.ensureChild fresh start x).1 path).1 = _ ∧
      ((g.ensureChild fresh start x).2.ensureFrom fresh (g.ensureChild fresh start x).1 path).2.Shows _
    rw [hnext]
    exact ih hshows (PackageTree.lt_size_ensureChild fresh start x)

/-- Creating a path does the same in the graph and in the tree. -/
theorem ensure (h : g.Shows t) (fresh : α) (path : List String) :
    (g.ensure fresh path).1 = (t.ensure fresh path).1 ∧ (g.ensure fresh path).2.Shows (t.ensure fresh path).2 := by
  rw [PackageGraph.ensure, PackageTree.ensure, h.root]
  exact h.ensureFrom fresh (Nat.succ_pos _) path

theorem afterCreating (fresh : α) (created : List (List String)) :
    (afterCreating fresh created : PackageGraph G).Shows (.afterCreating fresh created) := by
  induction created using List.reverseRecOn with
  | nil => exact single fresh
  | append_singleton created path ih =>
    rw [PackageGraph.afterCreating, List.foldl_append, PackageTree.afterCreating_concat]
    exact (ih.ensure fresh path).2

/-! ### Paths and names -/

theorem descend? (h : g.Shows t) (start : Nat) (path : List String) :
    g.descend? start path = t.descend? start path := by
  induction path generalizing start with
  | nil => rfl
  | cons x path ih =>
    rw [PackageGraph.descend?, PackageTree.descend?, h.child?]
    exact Option.bind_congr fun next _ => ih next

theorem find? (h : g.Shows t) (path : List String) : g.find? path = t.find? path := by
  rw [PackageGraph.find?, h.root, h.descend?, PackageTree.find?]

/-- The way up from a package leads to the root, and it passes the path of the package from its end. -/
theorem reaches_root (h : g.Shows t) {path : List String} {node : Nat} (hpath : t.find? path = some node)
    (passed : List String) : StateTransition.Reaches g.stepUp (node, passed) (0, passed ++ path.reverse) := by
  induction path using List.reverseRecOn generalizing node passed with
  | nil =>
    obtain rfl : 0 = node := Option.some.inj hpath
    rw [List.reverse_nil, List.append_nil]
    exact .refl
  | append_singleton path x ih =>
    rw [PackageTree.find?_concat, Option.bind_eq_some_iff] at hpath
    obtain ⟨parent, hparent, hx⟩ := hpath
    have hstep : g.stepUp (node, passed) = some (parent, passed ++ [x]) := by rw [stepUp, h.parent? hx, Option.map_some]
    have hothers := ih hparent (passed ++ [x])
    rw [List.append_assoc, ← List.reverse_singleton, ← List.reverse_append] at hothers
    exact .head hstep hothers

/-- The way up from a package ends, and the name that is read off is the path that leads to it. -/
theorem name (h : g.Shows t) {path : List String} {node : Nat} (hpath : t.find? path = some node) :
    g.name node = Part.some ⟨path⟩ := by
  have hend : g.stepUp (0, path.reverse) = none := by rw [stepUp, h.parent?_root, Option.map_none]
  have hclimb : StateTransition.eval g.stepUp (node, []) = Part.some (0, path.reverse) :=
    Part.eq_some_iff.mpr (StateTransition.mem_eval.mpr ⟨h.reaches_root hpath [], hend⟩)
  rw [PackageGraph.name, hclimb, Part.map_some, List.reverse_reverse]

end Shows

/-- After any paths were created, the graph answers as the tree does. -/
theorem agrees_with_tree (fresh : α) (created : List (List String)) :
    let g : PackageGraph G := afterCreating fresh created
    let t : PackageTree α := .afterCreating fresh created
    (∀ p, g.find? p = t.find? p ∧ (g.ensure fresh p).1 = (t.ensure fresh p).1) ∧ g.count = t.size ∧
      ∀ node < t.size, g.data? node = t.data? node ∧ g.name node = Part.some ⟨t.pathOf node⟩ := by
  intro g t
  have hg : g.Shows t := Shows.afterCreating fresh created
  exact ⟨fun p => ⟨hg.find? p, (hg.ensure fresh p).1⟩, hg.count, fun node hnode =>
    ⟨hg.data node, hg.name ((PackageTree.reached_afterCreating fresh created).find?_pathOf hnode)⟩⟩

variable (G)

/-- **The graph of packages is a tree that is indexed by paths.**  After any paths were created, exactly the empty path
and what created paths begin with lead to a package; creating one of these gives its package and changes nothing;
different paths lead to different packages; the way up from each package ends, and the name that is read off leads to
the package and is the only path that does; and besides the root there are as many packages as there are distinct
non-empty beginnings of created paths. -/
theorem indexed_by_paths (fresh : α) (created : List (List String)) :
    let g : PackageGraph G := afterCreating fresh created
    (∀ p, (g.find? p).isSome ↔ p = [] ∨ ∃ path ∈ created, p <+: path) ∧
      (∀ p node, g.find? p = some node → g.ensure fresh p = (node, g)) ∧
      (∀ p q node, g.find? p = some node → g.find? q = some node → p = q) ∧
      (∀ node < g.count, ∃ p, g.name node = Part.some p ∧ g.find? p.segments = some node) ∧
      (∀ p node, g.find? p = some node → node < g.count ∧ g.name node = Part.some ⟨p⟩) ∧
      g.count = 1 + (((created.flatMap List.inits).filter (· ≠ [])).toFinset).card := by
  intro g
  have hg : g.Shows (.afterCreating fresh created) := Shows.afterCreating fresh created
  have hensure : ∀ p node, g.find? p = some node → g.ensure fresh p = (node, g) :=
    fun p node => ensureFrom_of_descend? fresh
  simp only [hg.find?, hg.count] at hensure ⊢
  refine ⟨PackageTree.isSome_find?_afterCreating fresh created, hensure,
    fun p q node => PackageTree.find?_inj, fun node hnode => ?_, fun p node hp => ?_,
    PackageTree.size_afterCreating fresh created⟩
  · obtain ⟨p, hp⟩ := PackageTree.reached_afterCreating fresh created node hnode
    exact ⟨⟨p⟩, hg.name hp, hp⟩
  · exact ⟨PackageTree.lt_size_of_find? hp, hg.name hp⟩

/-- The root is a package although no path was created. -/
theorem find?_nil_without_paths :
    ((afterCreating () [] : PackageGraph (LabelledEdgeList Unit String)).find? []).isSome ∧
      ¬∃ path ∈ ([] : List (List String)), [] <+: path :=
  ⟨rfl, by simp⟩

/-- A path that was created twice, and one that begins differently. -/
def someCreated : List (List String) := [["com", "example"], ["org"], ["com", "example"]]

theorem count_someCreated :
    let g : PackageGraph (LabelledEdgeList Unit String) := afterCreating () someCreated
    g.count = 4 ∧ g.find? ["com", "example"] = some 2 ∧ g.name 2 = Part.some ⟨["com", "example"]⟩ := by
  intro g
  obtain ⟨-, -, -, -, hname, hcount⟩ := indexed_by_paths (LabelledEdgeList Unit String) () someCreated
  have hfind : g.find? ["com", "example"] = some 2 := by decide +kernel
  exact ⟨hcount.trans (by decide +kernel), hfind, (hname _ _ hfind).2⟩

end PackageGraph

end ServiceCatalog
