import Mathlib.Data.List.Nodup
import ServiceCatalog.Proofs.Registry.BreadthFirst
import ServiceCatalog.Registry.SupertypeStore

/-!
# Supertypes in a graph, and what they stand for

A store of supertypes answers as the hierarchy of the edges that were declared.  `SupertypeStore.Shows` says what
the graph, the nodes and the remembered closures of a store have to do with a hierarchy; every call keeps it.

* `classesAt_traverse`: a traversal of the graph visits the classes that a visit of the hierarchy does.
* `Shows.call`: a call answers from the hierarchy, and the store behind it shows the declared edge.
* `supertypes_afterCalls`: what is answered after any calls.
-/

namespace ServiceCatalog.SupertypeStore

open DirectedGraph (value? neighbors order successors enqueue traverse)

variable {G : Type} [DirectedGraph G ClassName] {s : SupertypeStore G} {h : Hierarchy}

/-- Whether a store holds a hierarchy. -/
structure Shows (s : SupertypeStore G) (h : Hierarchy) : Prop where
  lookup_iff : ∀ c n, s.numbers.lookup c = some n ↔ value? s.graph n = some c
  nodup_successors : ∀ n, (successors s.graph n).Nodup
  classesAt_successors : ∀ c n, value? s.graph n = some c → s.classesAt (successors s.graph n) = h.direct c
  direct_eq_nil : ∀ c, s.numbers.lookup c = none → h.direct c = []
  remembered : ∀ e ∈ s.remembered, ∃ c, value? s.graph e.1 = some c ∧ e.2 = h.closure c

/-! ## Traversals -/

theorem lt_order_of_value? {g : G} {n : Nat} {c : ClassName} (hn : value? g n = some c) : n < order g :=
  (DirectedGraph.isSome_value?_iff g n).mp (by simp [hn])

/-- Nodes keep their values. -/
theorem value?_addNode_of_some {g : G} {n : Nat} {c d : ClassName} (hd : value? g n = some d) :
    value? (DirectedGraph.addNode g c).2 n = some d := by
  have hlt := lt_order_of_value? hd
  rw [DirectedGraph.value?_addNode, if_neg (by omega), hd]

theorem exists_value?_of_mem_successors {g : G} {n m : Nat} (hm : m ∈ successors g n) :
    ∃ d, value? g m = some d := by
  have hlt : m < order g := DirectedGraph.lt_order_of_mem_neighbors g n m (List.mem_reverse.mp hm)
  exact Option.isSome_iff_exists.mp ((DirectedGraph.isSome_value?_iff g m).mpr hlt)

theorem exists_value?_of_successors {g : G} {n m : Nat} (hm : m ∈ successors g n) : ∃ c, value? g n = some c := by
  refine Option.isSome_iff_exists.mp ((DirectedGraph.isSome_value?_iff g n).mpr ?_)
  by_contra hlt
  have hnil := DirectedGraph.neighbors_eq_nil g n (by omega)
  simp [successors, hnil] at hm

theorem enqueueAll_eq {l : List Nat} (hl : l.Nodup) (visited queue : List Nat) :
    (∀ m, m ∈ (l.foldl enqueue (visited, queue)).1 ↔ m ∈ visited ∨ m ∈ l) ∧
      (l.foldl enqueue (visited, queue)).2 = queue ++ l.filter (· ∉ visited) := by
  induction l generalizing visited queue with
  | nil => simp
  | cons n l ih =>
    obtain ⟨hn, hl⟩ := List.nodup_cons.mp hl
    rw [List.foldl_cons, enqueue]
    by_cases hvisited : n ∈ visited
    · obtain ⟨hmem, hqueue⟩ := ih hl visited queue
      rw [if_pos hvisited]
      refine ⟨fun m => ?_, ?_⟩
      · rw [hmem, List.mem_cons]
        by_cases hmn : m = n
        · simp [hmn, hvisited]
        · simp [hmn]
      · rw [hqueue, List.filter_cons_of_neg (by simpa using hvisited)]
    · obtain ⟨hmem, hqueue⟩ := ih hl (n :: visited) (queue ++ [n])
      rw [if_neg hvisited]
      refine ⟨fun m => ?_, ?_⟩
      · rw [hmem, List.mem_cons, List.mem_cons]
        tauto
      · have hrest : l.filter (· ∉ n :: visited) = l.filter (· ∉ visited) := by
          refine List.filter_congr fun m hm => ?_
          have hmn : m ≠ n := by
            rintro rfl
            exact hn hm
          simp [hmn]
        rw [hqueue, hrest, List.filter_cons_of_pos (by simpa using hvisited), List.append_assoc]
        rfl

namespace Shows

theorem eq_of_value? (hs : s.Shows h) {n m : Nat} {c : ClassName} (hn : value? s.graph n = some c)
    (hm : value? s.graph m = some c) : n = m := by
  have hlookup := (hs.lookup_iff c n).mpr hn
  rw [(hs.lookup_iff c m).mpr hm] at hlookup
  exact (Option.some.inj hlookup).symm

theorem mem_direct_iff (hs : s.Shows h) {n m : Nat} {c d : ClassName} (hn : value? s.graph n = some c)
    (hm : value? s.graph m = some d) : d ∈ h.direct c ↔ m ∈ successors s.graph n := by
  rw [← hs.classesAt_successors c n hn, classesAt, List.mem_filterMap]
  constructor
  · rintro ⟨m', hm', hd⟩
    exact hs.eq_of_value? hd hm ▸ hm'
  · intro hmem
    exact ⟨m, hmem, hm⟩

/-- Nodes are unvisited where their classes are unseen. -/
theorem classesAt_filter {visited : List Nat} {unseen : List ClassName} {l : List Nat}
    (hunseen : ∀ m ∈ l, ∀ d, value? s.graph m = some d → (m ∉ visited ↔ d ∈ unseen))
    (hvalue : ∀ m ∈ l, ∃ d, value? s.graph m = some d) :
    s.classesAt (l.filter (· ∉ visited)) = (s.classesAt l).filter unseen.contains := by
  induction l with
  | nil => rfl
  | cons m l ih =>
    obtain ⟨d, hd⟩ := hvalue m (List.mem_cons_self ..)
    have hm := hunseen m (List.mem_cons_self ..) d hd
    have ih := ih (fun m hm => hunseen m (List.mem_cons_of_mem _ hm)) fun m hm => hvalue m (List.mem_cons_of_mem _ hm)
    simp only [classesAt] at ih ⊢
    rw [List.filterMap_cons_some hd]
    by_cases hvisited : m ∈ visited
    · have hd' : d ∉ unseen := fun hmem => hm.mpr hmem hvisited
      rw [List.filter_cons_of_neg (by simpa using hvisited), List.filter_cons_of_neg (by simpa using hd'), ih]
    · rw [List.filter_cons_of_pos (by simpa using hvisited), List.filterMap_cons_some hd,
        List.filter_cons_of_pos (by simpa using hm.mp hvisited), ih]

/-- A traversal of the graph visits the classes that a visit of the hierarchy does, if the visited nodes are those
whose classes were seen. -/
theorem classesAt_traverse (hs : s.Shows h) (visited queue : List Nat) (unseen : List ClassName)
    (hqueue : ∀ n ∈ queue, ∃ c, value? s.graph n = some c)
    (hunseen : ∀ n m d, m ∈ successors s.graph n → value? s.graph m = some d → (m ∉ visited ↔ d ∈ unseen)) :
    s.classesAt (traverse s.graph visited queue) = h.visit unseen (s.classesAt queue) := by
  fun_induction traverse s.graph visited queue generalizing unseen with
  | case1 visited => rw [classesAt, List.filterMap_nil, Hierarchy.visit]
  | case2 visited n queue next ih =>
    obtain ⟨c, hc⟩ := hqueue n (List.mem_cons_self ..)
    obtain ⟨hmem, hnext⟩ := enqueueAll_eq (hs.nodup_successors n) visited queue
    have hfresh : s.classesAt ((successors s.graph n).filter (· ∉ visited)) = h.unseenSupers unseen c := by
      rw [classesAt_filter (fun m hm d hd => hunseen n m d hm hd) fun m hm => exists_value?_of_mem_successors hm,
        hs.classesAt_successors c n hc, Hierarchy.unseenSupers]
    have hclasses : s.classesAt next.2 = s.classesAt queue ++ h.unseenSupers unseen c := by
      rw [← hfresh]
      exact (congrArg s.classesAt hnext).trans (List.filterMap_append ..)
    have hcons : ∀ l, s.classesAt (n :: l) = c :: s.classesAt l := fun l => List.filterMap_cons_some hc
    rw [hcons, hcons, Hierarchy.visit, ← hclasses]
    refine congrArg (c :: ·) (ih _ ?_ ?_)
    · intro m hm
      rcases List.mem_append.mp (hnext ▸ hm : m ∈ queue ++ (successors s.graph n).filter (· ∉ visited)) with hm | hm
      · exact hqueue m (List.mem_cons_of_mem _ hm)
      · exact exists_value?_of_mem_successors (List.mem_filter.mp hm).1
    · intro k m d hm hd
      rw [show m ∉ next.1 ↔ ¬(m ∈ visited ∨ m ∈ successors s.graph n) from not_congr (hmem m), not_or,
        hunseen k m d hm hd, ← hs.mem_direct_iff hc hd, Hierarchy.mem_without, Hierarchy.unseenSupers,
        List.mem_filter]
      by_cases hd' : d ∈ unseen
      · simp [hd']
      · simp [hd']

/-- The classes of a traversal from a node are the closure of its class. -/
theorem classesAt_traverse_singleton (hs : s.Shows h) {n : Nat} {c : ClassName} (hn : value? s.graph n = some c) :
    s.classesAt (traverse s.graph [n] [n]) = h.closure c := by
  have hclasses : s.classesAt [n] = [c] := List.filterMap_cons_some hn
  rw [Hierarchy.closure, ← hclasses]
  refine hs.classesAt_traverse _ _ _ (by simpa using ⟨c, hn⟩) fun k m d hm hd => ?_
  obtain ⟨e, he⟩ := exists_value?_of_successors hm
  have hother := Hierarchy.mem_others_of_extends (c := c) ((hs.mem_direct_iff he hd).mpr hm)
  have hsame : m = n ↔ d = c := by
    constructor
    · rintro rfl
      exact Option.some.inj (hd.symm.trans hn)
    · rintro rfl
      exact hs.eq_of_value? hd hn
  rw [List.mem_singleton, hsame]
  exact hother.symm

/-! ## Calls -/

/-- A class that gets a node has no supertypes. -/
theorem addNode (hs : s.Shows h) {c : ClassName} (hc : s.numbers.lookup c = none) :
    Shows { s with graph := (DirectedGraph.addNode s.graph c).2, numbers := (c, order s.graph) :: s.numbers } h := by
  have hfree : ¬∃ d, value? s.graph (order s.graph) = some d := by
    rintro ⟨d, hd⟩
    exact Nat.lt_irrefl _ (lt_order_of_value? hd)
  have hvalue := DirectedGraph.value?_addNode s.graph c
  have hkeep : ∀ n d, value? s.graph n = some d → value? (DirectedGraph.addNode s.graph c).2 n = some d :=
    fun _ _ => value?_addNode_of_some
  have hlookup : ∀ d, ((c, order s.graph) :: s.numbers).lookup d =
      if d = c then some (order s.graph) else s.numbers.lookup d := by
    intro d
    by_cases hdc : d = c
    · simp [hdc]
    · rw [List.lookup_cons, beq_false_of_ne hdc, if_neg hdc]
  have hsuccessors : ∀ n, successors (DirectedGraph.addNode s.graph c).2 n = successors s.graph n := fun n => by
    rw [successors, successors, DirectedGraph.neighbors_addNode]
  have hclasses : ∀ n, (successors s.graph n).filterMap (value? (DirectedGraph.addNode s.graph c).2) =
      s.classesAt (successors s.graph n) := by
    refine fun n => List.filterMap_congr fun m hm => ?_
    obtain ⟨d, hd⟩ := exists_value?_of_mem_successors hm
    rw [hkeep m d hd, hd]
  refine ⟨fun d n => ?_, fun n => ?_, fun d n hn => ?_, fun d hd => ?_, fun e he => ?_⟩
  · rw [hvalue, hlookup]
    by_cases hdc : d = c
    · have hnot : ¬value? s.graph n = some d := fun hn => by
        simpa [hdc, hc] using (hs.lookup_iff d n).mpr hn
      by_cases hn : n = order s.graph
      · simp [hdc, hn]
      · simp [hdc, hn, Ne.symm hn, hdc ▸ hnot]
    · by_cases hn : n = order s.graph
      · have hnot : ¬s.numbers.lookup d = some n := fun hd => hfree ⟨d, hn ▸ (hs.lookup_iff d n).mp hd⟩
        simp [hdc, hn, Ne.symm hdc, hn ▸ hnot]
      · simp [hdc, hn, hs.lookup_iff]
  · rw [hsuccessors]
    exact hs.nodup_successors n
  · rw [classesAt, hsuccessors, hclasses]
    rw [hvalue] at hn
    by_cases hnew : n = order s.graph
    · obtain rfl : c = d := by simpa [hnew] using hn
      have hnil : neighbors s.graph n = [] := DirectedGraph.neighbors_eq_nil s.graph n (by omega)
      rw [hs.direct_eq_nil c hc, successors, hnil]
      rfl
    · exact hs.classesAt_successors d n (by simpa [hnew] using hn)
  · rw [hlookup] at hd
    by_cases hdc : d = c
    · simp [hdc] at hd
    · exact hs.direct_eq_nil d (by simpa [hdc] using hd)
  · obtain ⟨d, hd, hclosure⟩ := hs.remembered e he
    exact ⟨d, hkeep _ _ hd, hclosure⟩

/-- Behind the call, the number is the one of the class, and other classes keep theirs. -/
theorem number (hs : s.Shows h) (c : ClassName) :
    (s.number c).2.Shows h ∧ value? (s.number c).2.graph (s.number c).1 = some c ∧
      ∀ n d, value? s.graph n = some d → value? (s.number c).2.graph n = some d := by
  cases hlookup : s.numbers.lookup c with
  | some n =>
    have hnumber : s.number c = (n, s) := by simp [SupertypeStore.number, hlookup]
    rw [hnumber]
    exact ⟨hs, (hs.lookup_iff c n).mp hlookup, fun _ _ hd => hd⟩
  | none =>
    have hnumber : s.number c = (order s.graph, { s with
        graph := (DirectedGraph.addNode s.graph c).2
        numbers := (c, order s.graph) :: s.numbers }) := by
      simp [SupertypeStore.number, hlookup, DirectedGraph.number_addNode]
    rw [hnumber]
    refine ⟨hs.addNode hlookup, ?_, fun _ _ => value?_addNode_of_some⟩
    rw [DirectedGraph.value?_addNode, if_pos rfl]

/-- An edge between the nodes of two classes declares one as a supertype of the other one. -/
theorem addEdge (hs : s.Shows h) {n m : Nat} {sub super : ClassName} (hn : value? s.graph n = some sub)
    (hm : value? s.graph m = some super) :
    (if n ≠ m ∧ !DirectedGraph.hasEdge s.graph n m then
      { s with graph := DirectedGraph.addEdge s.graph n m, remembered := [] }
    else s).Shows (h.add sub super) := by
  have hsame : n = m ↔ sub = super := by
    constructor
    · rintro rfl
      exact Option.some.inj (hn.symm.trans hm)
    · rintro rfl
      exact hs.eq_of_value? hn hm
  have hedge : DirectedGraph.hasEdge s.graph n m ↔ super ∈ h.direct sub := by
    rw [DirectedGraph.hasEdge_iff, hs.mem_direct_iff hn hm, successors, List.mem_reverse]
  by_cases hnew : n ≠ m ∧ !DirectedGraph.hasEdge s.graph n m
  · rw [if_pos hnew]
    have hlt := lt_order_of_value? hn
    have hlt' := lt_order_of_value? hm
    have hsuccessors : ∀ k, successors (DirectedGraph.addEdge s.graph n m) k =
        if k = n then successors s.graph k ++ [m] else successors s.graph k := by
      intro k
      rw [successors, DirectedGraph.neighbors_addEdge s.graph n m k hlt hlt']
      split
      · exact List.reverse_cons
      · rfl
    have hclasses : ∀ l : List Nat,
        l.filterMap (value? (DirectedGraph.addEdge s.graph n m)) = l.filterMap (value? s.graph) :=
      fun l => List.filterMap_congr fun k _ => DirectedGraph.value?_addEdge s.graph n m k
    have hnot : super ∉ h.direct sub := fun hmem => by simp [hedge.mpr hmem] at hnew
    refine ⟨fun d k => ?_, fun k => ?_, fun d k hk => ?_, fun d hd => ?_, fun e he => absurd he List.not_mem_nil⟩
    · rw [DirectedGraph.value?_addEdge]
      exact hs.lookup_iff d k
    · rw [hsuccessors]
      split
      · next hk =>
        subst hk
        refine List.nodup_append.mpr ⟨hs.nodup_successors k, List.nodup_singleton m, ?_⟩
        intro a ha b hb hab
        obtain rfl : b = m := List.mem_singleton.mp hb
        exact hnot ((hs.mem_direct_iff hn hm).mpr (hab ▸ ha))
      · exact hs.nodup_successors k
    · rw [DirectedGraph.value?_addEdge] at hk
      have hold := hs.classesAt_successors d k hk
      rw [classesAt, hclasses, hsuccessors, Hierarchy.direct_add]
      by_cases hkn : k = n
      · obtain rfl : d = sub := Option.some.inj (hk.symm.trans (hkn ▸ hn))
        rw [if_pos hkn, if_pos rfl, Hierarchy.appended, if_neg (by simp [hnot, ← hsame, hnew.1]),
          List.filterMap_append, ← hold, List.filterMap_cons_some hm]
        rfl
      · have hdsub : d ≠ sub := by
          rintro rfl
          exact hkn (hs.eq_of_value? hk hn)
        rw [if_neg hkn, if_neg hdsub]
        exact hold
    · have hdsub : d ≠ sub := by
        rintro rfl
        simp [(hs.lookup_iff d n).mpr hn] at hd
      rw [Hierarchy.direct_add, if_neg hdsub]
      exact hs.direct_eq_nil d hd
  · rw [if_neg hnew]
    have hold : h.add sub super = h := by
      rw [Hierarchy.add, if_pos]
      by_cases hnm : n = m
      · simp [hsame.mp hnm]
      · have hmem : super ∈ h.direct sub := hedge.mp (by simpa [hnm] using hnew)
        simp [Hierarchy.mem_direct.mp hmem]
    rw [hold]
    exact hs

theorem add (hs : s.Shows h) (sub super : ClassName) : (s.add sub super).Shows (h.add sub super) := by
  obtain ⟨hs, hn, -⟩ := hs.number sub
  obtain ⟨hs, hm, hkeep⟩ := hs.number super
  exact hs.addEdge (hkeep _ _ hn) hm

theorem direct (hs : s.Shows h) (c : ClassName) : s.direct c = h.direct c := by
  unfold SupertypeStore.direct
  split
  · next hnone => exact (hs.direct_eq_nil c hnone).symm
  · next n hn => exact hs.classesAt_successors c n ((hs.lookup_iff c n).mp hn)

/-- A closure that is remembered is the one that a traversal would find. -/
theorem closure (hs : s.Shows h) (c : ClassName) : (s.closure c).1 = h.closure c ∧ (s.closure c).2.Shows h := by
  cases hlookup : s.numbers.lookup c with
  | none =>
    have hself : h.closure c = [c] := by
      simp [Hierarchy.closure, Hierarchy.visit, Hierarchy.unseenSupers, hs.direct_eq_nil c hlookup]
    simp [SupertypeStore.closure, hlookup, hself, hs]
  | some n =>
    have hn := (hs.lookup_iff c n).mp hlookup
    cases hremembered : s.remembered.lookup n with
    | some supers =>
      obtain ⟨_, _, hsplit, -⟩ := List.lookup_eq_some_iff.mp hremembered
      obtain ⟨d, hd, hclosure⟩ := hs.remembered (n, supers) (by simp [hsplit])
      obtain rfl : c = d := Option.some.inj (hn.symm.trans hd)
      simp only [SupertypeStore.closure, hlookup, hremembered]
      exact ⟨hclosure, hs⟩
    | none =>
      simp only [SupertypeStore.closure, hlookup, hremembered]
      refine ⟨hs.classesAt_traverse_singleton hn, { hs with remembered := fun e he => ?_ }⟩
      rcases List.mem_cons.mp he with rfl | he
      · exact ⟨c, hn, hs.classesAt_traverse_singleton hn⟩
      · exact hs.remembered e he

/-- A call answers from the hierarchy, and only a declaration changes what the store shows. -/
theorem call (hs : s.Shows h) (c : SupertypeCall) : (s.call c).2.Shows (h.addAll c.edges) := by
  cases c with
  | add sub super => exact hs.add sub super
  | direct c => exact hs
  | closure c => exact (hs.closure c).2

/-- What holds after calls is what the declared supertypes say, whatever was asked in between. -/
theorem afterCalls (hs : s.Shows h) (calls : List SupertypeCall) :
    (s.afterCalls calls).Shows (h.addAll (calls.flatMap SupertypeCall.edges)) := by
  induction calls generalizing s h with
  | nil => exact hs
  | cons c calls ih =>
    have hrest := ih (hs.call c)
    rw [Hierarchy.addAll, Hierarchy.addAll, ← List.foldl_append] at hrest
    exact hrest

end Shows

/-- The empty store holds the empty hierarchy. -/
theorem shows_empty : (empty : SupertypeStore G).Shows .empty := by
  have hnone : ∀ n, value? (DirectedGraph.empty : G) n = none := by
    intro n
    by_contra hsome
    have hlt := (DirectedGraph.isSome_value?_iff (DirectedGraph.empty : G) n).mp (Option.isSome_iff_ne_none.mpr hsome)
    rw [DirectedGraph.order_empty] at hlt
    omega
  have hnil : ∀ n, successors (DirectedGraph.empty : G) n = [] := by
    intro n
    have hle : order (DirectedGraph.empty : G) ≤ n := by
      rw [DirectedGraph.order_empty]
      exact Nat.zero_le n
    rw [successors, DirectedGraph.neighbors_eq_nil _ n hle]
    rfl
  refine ⟨fun c n => ?_, fun n => ?_, fun c n hn => ?_, fun c _ => rfl, fun e he => absurd he List.not_mem_nil⟩
  · simp [empty, hnone]
  · simp [empty, hnil]
  · simp [empty, hnone] at hn

/-- After any calls, in any order, the direct supertypes of a class are those that were declared for it, each once
and where it was declared first; and its closure is what a traversal of the declared supertypes finds, whatever was
asked for before. -/
theorem supertypes_afterCalls (calls : List SupertypeCall) (c : ClassName) :
    let s : SupertypeStore G := empty.afterCalls calls
    let declared := calls.flatMap SupertypeCall.edges
    (s.call (.direct c)).1 = (((declared.filter (·.1 = c)).map Prod.snd).filter (· ≠ c)).eraseDups ∧
      (s.call (.closure c)).1 = (Hierarchy.empty.addAll declared).closure c ∧
      IsBreadthFirst s.direct c (s.call (.closure c)).1 := by
  intro s declared
  have hs : s.Shows (Hierarchy.empty.addAll declared) := shows_empty.afterCalls calls
  have hdirect : ∀ c, (Hierarchy.empty.addAll declared).direct c =
      Hierarchy.distinct c ((declared.filter (·.1 = c)).map Prod.snd) := fun c => Hierarchy.direct_addAll declared c
  refine ⟨?_, (hs.closure c).1, ?_⟩
  · rw [call, hs.direct, hdirect, Hierarchy.distinct_eq_eraseDups]
  · have hsame : s.direct = (Hierarchy.empty.addAll declared).direct := funext hs.direct
    rw [call, (hs.closure c).1, hsame]
    exact Hierarchy.isBreadthFirst_closure (fun d => hdirect d ▸ Hierarchy.nodup_distinct d _) c

/-! ### A cycle -/

/-- A class without a package. -/
def ofLetter (name : String) : ClassName := ⟨⟨[]⟩, ⟨[name]⟩⟩

/-- Supertypes in a cycle, one of them declared twice and one for the class itself, and a closure that is asked for
before the last one is declared. -/
def cyclicCalls : List SupertypeCall :=
  [.add (ofLetter "A") (ofLetter "B"), .add (ofLetter "A") (ofLetter "C"), .add (ofLetter "B") (ofLetter "A"),
    .add (ofLetter "A") (ofLetter "B"), .add (ofLetter "C") (ofLetter "C"), .closure (ofLetter "A"),
    .add (ofLetter "C") (ofLetter "D")]

theorem supertypes_in_cycle :
    let s : SupertypeStore (EdgeList ClassName) := empty.afterCalls cyclicCalls
    (s.call (.direct (ofLetter "A"))).1 = [ofLetter "B", ofLetter "C"] ∧
      (s.call (.closure (ofLetter "A"))).1 = [ofLetter "A", ofLetter "B", ofLetter "C", ofLetter "D"] ∧
      IsBreadthFirst s.direct (ofLetter "A") (s.call (.closure (ofLetter "A"))).1 := by
  intro s
  obtain ⟨hdirect, hclosure, hbreadth⟩ := supertypes_afterCalls (G := EdgeList ClassName) cyclicCalls (ofLetter "A")
  refine ⟨hdirect.trans (by decide), hclosure.trans ?_, hbreadth⟩
  have hedges : Hierarchy.empty.addAll (cyclicCalls.flatMap SupertypeCall.edges) =
      ⟨[(ofLetter "A", ofLetter "B"), (ofLetter "A", ofLetter "C"), (ofLetter "B", ofLetter "A"),
        (ofLetter "C", ofLetter "D")]⟩ := by decide
  rw [hedges]
  simp [Hierarchy.closure, Hierarchy.visit, Hierarchy.unseenSupers, Hierarchy.direct, Hierarchy.without, ofLetter]

end ServiceCatalog.SupertypeStore
