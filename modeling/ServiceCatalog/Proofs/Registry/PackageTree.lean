import Mathlib.Data.List.Induction
import ServiceCatalog.Registry.PackageTree

/-!
# Packages by their paths

A tree of packages is described by `PackageTree.at?`, the data at the end of a path.  The numbers of the
packages do not show in it, so two trees that were filled in different orders can be compared.

* `find?_inj`: different paths lead to different packages.
* `at?_ensure`: creating a path adds packages on the way and leaves every other path alone.
* `allData_ensure`, `find?_ensure_of_find?`: no package is moved or lost when a path is created.
* `at?_modify`: changing a package changes the data at its own path and at no other.
-/

namespace ServiceCatalog.PackageTree

variable {α : Type} {t : PackageTree α}

/-- The data of the package that a path leads to. -/
def at? (t : PackageTree α) (path : List String) : Option α := (t.find? path).bind t.data?

/-! ## One step down -/

/-- A child is behind its parent, and its node holds the number of the parent and the name. -/
theorem exists_node_of_child? {parent c : Nat} {name : String} (h : t.child? parent name = some c) :
    ∃ i n, c = i + 1 ∧ parent ≤ i ∧ t.nodes[i]? = some n ∧ n.parent = parent ∧ n.name = name := by
  obtain ⟨j, hj, rfl⟩ := Option.map_eq_some_iff.mp h
  obtain ⟨hlt, hn, -⟩ := List.findIdx?_eq_some_iff_getElem.mp hj
  refine ⟨parent + j, (t.nodes.drop parent)[j], by omega, by omega, ?_, ?_⟩
  · rw [← List.getElem?_drop, List.getElem?_eq_getElem hlt]
  · simpa using hn

theorem lt_of_child? {parent c : Nat} {name : String} (h : t.child? parent name = some c) :
    parent < c := by
  obtain ⟨i, n, rfl, hle, -⟩ := exists_node_of_child? h
  omega

theorem lt_size_of_child? {parent c : Nat} {name : String} (h : t.child? parent name = some c) :
    c < t.size := by
  obtain ⟨i, n, rfl, -, hn, -⟩ := exists_node_of_child? h
  have hi : i < t.nodes.length := (List.getElem?_eq_some_iff.mp hn).1
  rw [size]
  omega

/-- The package that would be the next one has no children yet. -/
theorem child?_size (name : String) : t.child? t.size name = none := by
  cases h : t.child? t.size name with
  | none => rfl
  | some c => exact absurd (lt_of_child? h) (by have := lt_size_of_child? h; omega)

/-- A package is a child of one package and under one name only. -/
theorem child?_inj {p q c : Nat} {x y : String} (hp : t.child? p x = some c)
    (hq : t.child? q y = some c) : p = q ∧ x = y := by
  obtain ⟨i, n, rfl, -, hi, rfl, rfl⟩ := exists_node_of_child? hp
  obtain ⟨j, m, hj, -, hm, rfl, rfl⟩ := exists_node_of_child? hq
  obtain rfl : i = j := by omega
  obtain rfl : n = m := Option.some.inj (hi.symm.trans hm)
  exact ⟨rfl, rfl⟩

/-- A new node is the child that it was made for, and changes no other child. -/
theorem child?_append (d : α) {parent : Nat} (hparent : parent < t.size) {name : String}
    (hnew : t.child? parent name = none) (q : Nat) (y : String) :
    (PackageTree.mk t.rootData (t.nodes ++ [⟨parent, name, d⟩])).child? q y =
      if q = parent ∧ y = name then some t.size else t.child? q y := by
  rw [size] at hparent
  have hsplit : (t.nodes ++ [(⟨parent, name, d⟩ : PackageNode α)]).drop q =
      t.nodes.drop q ++ [(⟨parent, name, d⟩ : PackageNode α)].drop (q - t.nodes.length) :=
    List.drop_append
  simp only [child?, hsplit, List.findIdx?_append]
  by_cases hq : q = parent ∧ y = name
  · obtain ⟨rfl, rfl⟩ := hq
    have hnone : (t.nodes.drop q).findIdx? (fun n => n.parent = q && n.name = y) = none :=
      Option.map_eq_none_iff.mp hnew
    have hzero : q - t.nodes.length = 0 := by omega
    rw [hnone, hzero]
    simp [size]
    omega
  · rw [if_neg hq]
    have hnone : ([(⟨parent, name, d⟩ : PackageNode α)].drop (q - t.nodes.length)).findIdx?
        (fun n => n.parent = q && n.name = y) = none := by
      rw [List.findIdx?_eq_none_iff]
      intro n hn
      obtain rfl : n = ⟨parent, name, d⟩ := by simpa using List.mem_of_mem_drop hn
      rw [← Bool.not_eq_true]
      intro hb
      obtain ⟨h1, h2⟩ : parent = q ∧ name = y := by simpa using hb
      exact hq ⟨h1.symm, h2.symm⟩
    rw [hnone]
    simp

/-! ## Paths -/

theorem descend?_append (start : Nat) (p q : List String) :
    t.descend? start (p ++ q) = (t.descend? start p).bind fun next => t.descend? next q := by
  induction p generalizing start with
  | nil => rfl
  | cons x p ih =>
    simp only [List.cons_append, descend?, Option.bind_assoc]
    cases t.child? start x with
    | none => rfl
    | some next => exact ih next

@[simp] theorem find?_nil : t.find? [] = some 0 := rfl

theorem find?_concat (p : List String) (x : String) :
    t.find? (p ++ [x]) = (t.find? p).bind fun node => t.child? node x := by
  rw [find?, descend?_append]
  refine Option.bind_congr fun node _ => ?_
  rw [descend?]
  cases t.child? node x <;> rfl

theorem lt_size_of_find? {p : List String} {node : Nat} (h : t.find? p = some node) : node < t.size := by
  rcases List.eq_nil_or_concat p with rfl | ⟨p, x, rfl⟩
  · rw [find?_nil, Option.some_inj] at h
    rw [size]
    omega
  · rw [List.concat_eq_append, find?_concat, Option.bind_eq_some_iff] at h
    obtain ⟨parent, -, h⟩ := h
    exact lt_size_of_child? h

/-- Different paths lead to different packages. -/
theorem find?_inj {p q : List String} {node : Nat} (hp : t.find? p = some node)
    (hq : t.find? q = some node) : p = q := by
  induction p using List.reverseRecOn generalizing q node with
  | nil =>
    obtain rfl : 0 = node := Option.some.inj hp
    rcases List.eq_nil_or_concat q with rfl | ⟨q, y, rfl⟩
    · rfl
    · rw [List.concat_eq_append, find?_concat, Option.bind_eq_some_iff] at hq
      obtain ⟨parent, -, hq⟩ := hq
      exact absurd (lt_of_child? hq) (by omega)
  | append_singleton p x ih =>
    rw [find?_concat, Option.bind_eq_some_iff] at hp
    obtain ⟨parent, hparent, hx⟩ := hp
    rcases List.eq_nil_or_concat q with rfl | ⟨q, y, rfl⟩
    · obtain rfl : 0 = node := Option.some.inj hq
      exact absurd (lt_of_child? hx) (by omega)
    · rw [List.concat_eq_append, find?_concat, Option.bind_eq_some_iff] at hq
      obtain ⟨parent', hparent', hy⟩ := hq
      obtain ⟨rfl, rfl⟩ := child?_inj hx hy
      rw [ih hparent hparent', List.concat_eq_append]

theorem node_eq_iff {p q : List String} {node m : Nat} (hp : t.find? p = some node)
    (hq : t.find? q = some m) : m = node ↔ q = p := by
  constructor
  · rintro rfl
    exact find?_inj hq hp
  · rintro rfl
    exact Option.some.inj (hq.symm.trans hp)

/-! ## Data -/

theorem exists_data_of_lt_size {node : Nat} (h : node < t.size) : ∃ d, t.data? node = some d := by
  rw [size] at h
  cases node with
  | zero => exact ⟨t.rootData, rfl⟩
  | succ i =>
    have hi : i < t.nodes.length := by omega
    exact ⟨t.nodes[i].data, by simp [data?, List.getElem?_eq_getElem hi]⟩

theorem data?_append (n : PackageNode α) (node : Nat) :
    (PackageTree.mk t.rootData (t.nodes ++ [n])).data? node =
      if node = t.size then some n.data else t.data? node := by
  cases node with
  | zero => simp [data?, size]
  | succ i =>
    simp only [data?, size, Nat.add_right_cancel_iff, List.getElem?_append]
    by_cases hi : i < t.nodes.length
    · rw [if_pos hi, if_neg (by omega)]
    · rw [if_neg hi]
      by_cases heq : i = t.nodes.length
      · simp [heq]
      · have hle : t.nodes.length ≤ i := by omega
        rw [if_neg heq, List.getElem?_eq_none hle, List.getElem?_eq_none (by simp; omega)]

theorem data?_modify (f : α → α) (node m : Nat) :
    (t.modify f node).data? m = if m = node then (t.data? m).map f else t.data? m := by
  cases node with
  | zero => cases m <;> simp [modify, data?]
  | succ i =>
    cases m with
    | zero => simp [modify, data?]
    | succ j =>
      simp only [modify, data?, Nat.add_right_cancel_iff, List.getElem?_modify]
      by_cases h : i = j
      · subst h
        simp [Function.comp_def]
      · simp [h, Ne.symm h]

/-- A change that a condition does not notice does not move the first element it holds of. -/
theorem findIdx?_modify {β : Type} (p : β → Bool) (f : β → β) (hf : ∀ b, p (f b) = p b) (l : List β)
    (k : Nat) : (l.modify k f).findIdx? p = l.findIdx? p := by
  induction l generalizing k with
  | nil => cases k <;> rfl
  | cons b l ih => cases k <;> simp [List.findIdx?_cons, hf, ih]

theorem child?_modify (f : α → α) (node parent : Nat) (name : String) :
    (t.modify f node).child? parent name = t.child? parent name := by
  cases node with
  | zero => rfl
  | succ i =>
    simp only [child?, modify]
    by_cases h : i < parent
    · rw [List.drop_modify_of_lt _ _ _ _ h]
    · rw [List.drop_modify_of_ge _ _ _ _ (by omega)]
      refine congrArg _ (findIdx?_modify _ _ ?_ _ _)
      intro n
      rfl

theorem find?_modify (f : α → α) (node : Nat) (p : List String) : (t.modify f node).find? p = t.find? p := by
  induction p using List.reverseRecOn with
  | nil => rfl
  | append_singleton p x ih => simp only [find?_concat, ih, child?_modify]

/-- Changing a package changes the data at its path and at no other. -/
theorem at?_modify (f : α → α) {p : List String} {node : Nat} (h : t.find? p = some node)
    (q : List String) :
    (t.modify f node).at? q = if q = p then (t.at? q).map f else t.at? q := by
  simp only [at?, find?_modify]
  cases hq : t.find? q with
  | none =>
    have hne : q ≠ p := by
      rintro rfl
      simp [hq] at h
    simp [hne]
  | some m =>
    simp [data?_modify, node_eq_iff h hq]

/-! ## Creating paths -/

/-- Making a child adds the one path that leads to it. -/
theorem find?_ensureChild (fresh : α) {p : List String} {node : Nat} (h : t.find? p = some node)
    (x : String) (q : List String) :
    (t.ensureChild fresh node x).2.find? q =
      if q = p ++ [x] then some (t.ensureChild fresh node x).1 else t.find? q := by
  cases hx : t.child? node x with
  | some c =>
    have hstay : t.ensureChild fresh node x = (c, t) := by rw [ensureChild, hx]
    have hpath : t.find? (p ++ [x]) = some c := by rw [find?_concat, h, Option.bind_some, hx]
    rw [hstay]
    split
    · simp_all
    · rfl
  | none =>
    have hmade : t.ensureChild fresh node x =
        (t.size, ⟨t.rootData, t.nodes ++ [⟨node, x, fresh⟩]⟩) := by rw [ensureChild, hx]
    rw [hmade]
    -- from the right: the path without its last segment decides which node the last step starts from
    induction q using List.reverseRecOn with
    | nil => simp
    | append_singleton q y ih =>
      rw [find?_concat, ih, find?_concat]
      by_cases hq : q = p ++ [x]
      · have hgone : t.find? q = none := by rw [hq, find?_concat, h, Option.bind_some, hx]
        have hsize : node < t.size := lt_size_of_find? h
        rw [if_pos hq, Option.bind_some, child?_append fresh hsize hx, if_neg (by omega),
          child?_size, hgone]
        simp [hq]
      · rw [if_neg hq]
        cases hn : t.find? q with
        | none =>
          have hne : q ≠ p := by
            rintro rfl
            simp [hn] at h
          simp [hne]
        | some m =>
          rw [Option.bind_some, child?_append fresh (lt_size_of_find? h) hx]
          simp [node_eq_iff h hn]

/-- Making a child gives it data if it is new, and leaves all other data alone. -/
theorem at?_ensureChild (fresh : α) {p : List String} {node : Nat} (h : t.find? p = some node)
    (x : String) (q : List String) :
    (t.ensureChild fresh node x).2.at? q =
      if q = p ++ [x] then some ((t.at? q).getD fresh) else t.at? q := by
  have hfind := find?_ensureChild fresh h x
  cases hx : t.child? node x with
  | some c =>
    have hstay : t.ensureChild fresh node x = (c, t) := by rw [ensureChild, hx]
    obtain ⟨d, hd⟩ := exists_data_of_lt_size (lt_size_of_child? hx)
    have hpath : t.at? (p ++ [x]) = some d := by
      rw [at?, find?_concat, h, Option.bind_some, hx, Option.bind_some, hd]
    rw [hstay]
    split
    · simp_all
    · rfl
  | none =>
    have hmade : t.ensureChild fresh node x =
        (t.size, ⟨t.rootData, t.nodes ++ [⟨node, x, fresh⟩]⟩) := by rw [ensureChild, hx]
    have hgone : t.find? (p ++ [x]) = none := by rw [find?_concat, h, Option.bind_some, hx]
    rw [hmade] at hfind ⊢
    rw [at?, hfind]
    by_cases hq : q = p ++ [x]
    · simp [hq, data?_append, at?, hgone]
    · rw [if_neg hq, if_neg hq, at?]
      refine Option.bind_congr fun m hm => ?_
      have hm' : m < t.size := lt_size_of_find? hm
      rw [data?_append, if_neg (by omega)]

theorem ensureFrom_append (fresh : α) (start : Nat) (p q : List String) :
    t.ensureFrom fresh start (p ++ q) =
      (t.ensureFrom fresh start p).2.ensureFrom fresh (t.ensureFrom fresh start p).1 q := by
  induction p generalizing t start with
  | nil => rfl
  | cons x p ih => exact ih _

theorem ensure_concat (fresh : α) (p : List String) (x : String) :
    t.ensure fresh (p ++ [x]) = (t.ensure fresh p).2.ensureChild fresh (t.ensure fresh p).1 x :=
  ensureFrom_append fresh 0 p [x]

/-- A path that was created leads to the package that creating it gives. -/
theorem find?_ensure (fresh : α) (path : List String) :
    (t.ensure fresh path).2.find? path = some (t.ensure fresh path).1 := by
  induction path using List.reverseRecOn with
  | nil => rfl
  | append_singleton p x ih => rw [ensure_concat, find?_ensureChild fresh ih, if_pos rfl]

/-- Creating a path gives data to the packages on the way that were missing, and changes no other path. -/
theorem at?_ensure (fresh : α) (path q : List String) :
    (t.ensure fresh path).2.at? q =
      if q <+: path then some ((t.at? q).getD fresh) else t.at? q := by
  induction path using List.reverseRecOn with
  | nil =>
    show t.at? q = _
    by_cases hq : q = []
    · subst hq
      rfl
    · simp [hq]
  | append_singleton p x ih =>
    rw [ensure_concat, at?_ensureChild fresh (find?_ensure fresh p), ih]
    simp only [List.prefix_concat_iff]
    by_cases hq : q = p ++ [x]
    · have hlong : ¬ q <+: p := by
        intro h
        have hle : q.length ≤ p.length := h.length_le
        rw [hq, List.length_append, List.length_singleton] at hle
        omega
      rw [if_pos hq, if_neg hlong, if_pos (Or.inl hq)]
    · simp only [hq, false_or, if_false]

/-! ## All packages -/

theorem data?_eq_getElem? (node : Nat) : t.data? node = t.allData[node]? := by
  cases node with
  | zero => rfl
  | succ i => simp [data?, allData]

theorem allData_modify (f : α → α) (node : Nat) : (t.modify f node).allData = t.allData.modify node f := by
  cases node with
  | zero => rfl
  | succ i =>
    simp only [modify, allData, List.modify_succ_cons]
    congr 1
    induction t.nodes generalizing i with
    | nil => simp
    | cons n ns ih => cases i <;> simp [ih]

theorem allData_ensureChild (fresh : α) (parent : Nat) (name : String) :
    ∃ k, (t.ensureChild fresh parent name).2.allData = t.allData ++ List.replicate k fresh := by
  rw [ensureChild]
  split
  · exact ⟨0, by simp⟩
  · exact ⟨1, by simp [allData]⟩

theorem allData_ensureFrom (fresh : α) (start : Nat) (path : List String) :
    ∃ k, (t.ensureFrom fresh start path).2.allData = t.allData ++ List.replicate k fresh := by
  induction path generalizing t start with
  | nil => exact ⟨0, by simp [ensureFrom]⟩
  | cons name path ih =>
    obtain ⟨k, hk⟩ := allData_ensureChild (t := t) fresh start name
    obtain ⟨l, hl⟩ := ih (t := (t.ensureChild fresh start name).2) (t.ensureChild fresh start name).1
    refine ⟨k + l, ?_⟩
    rw [ensureFrom, hl, hk, List.append_assoc, List.replicate_append_replicate]

/-- Creating a path adds fresh packages behind all others. -/
theorem allData_ensure (fresh : α) (path : List String) :
    ∃ k, (t.ensure fresh path).2.allData = t.allData ++ List.replicate k fresh :=
  allData_ensureFrom fresh 0 path

/-- A path that leads to a package still leads to it when another path is created. -/
theorem find?_ensureChild_of_find? (fresh : α) {p q : List String} {node m : Nat} (h : t.find? p = some node)
    (x : String) (hq : t.find? q = some m) : (t.ensureChild fresh node x).2.find? q = some m := by
  rw [find?_ensureChild fresh h]
  split
  · next hqx =>
    rw [hqx, find?_concat, h, Option.bind_some] at hq
    rw [ensureChild, hq]
  · exact hq

theorem find?_ensure_of_find? (fresh : α) (path : List String) {q : List String} {m : Nat}
    (hq : t.find? q = some m) : (t.ensure fresh path).2.find? q = some m := by
  induction path using List.reverseRecOn with
  | nil => exact hq
  | append_singleton p x ih =>
    rw [ensure_concat]
    exact find?_ensureChild_of_find? fresh (find?_ensure fresh p) x ih

/-- Creating a path that exists changes nothing. -/
theorem ensure_of_find? (fresh : α) {path : List String} {node : Nat} (h : t.find? path = some node) :
    t.ensure fresh path = (node, t) := by
  induction path using List.reverseRecOn generalizing node with
  | nil =>
    obtain rfl : 0 = node := Option.some.inj h
    rfl
  | append_singleton p x ih =>
    rw [find?_concat, Option.bind_eq_some_iff] at h
    obtain ⟨parent, hparent, hx⟩ := h
    rw [ensure_concat, ih hparent, ensureChild, hx]

theorem modify_id (node : Nat) : t.modify id node = t := by
  cases node with
  | zero => rfl
  | succ i =>
    show PackageTree.mk t.rootData (t.nodes.modify i id) = t
    rw [List.modify_id]

end ServiceCatalog.PackageTree
