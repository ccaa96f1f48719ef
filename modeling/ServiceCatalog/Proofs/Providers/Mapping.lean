import Mathlib.Data.List.Sort
import Mathlib.Data.String.Basic
import ServiceCatalog.Providers.Mapping

/-!
# Mappings and their pairs

A mapping that is built by insertion is in order: its interfaces increase, and so do the providers of each,
of which there is at least one.  Such a mapping is determined by its pairs.

* `mem_pairs_insert`, `Ordered.insert`: what an insertion adds, and that it keeps the order.
* `ofPairs`: the mapping with given pairs.
* `Ordered.ext`: mappings in order with the same pairs are equal.
-/

namespace ServiceCatalog

/-! ## Sorted texts -/

theorem mem_insertSorted {s t : String} {l : List String} : t ∈ insertSorted s l ↔ t = s ∨ t ∈ l := by
  induction l with
  | nil => simp [insertSorted]
  | cons u l ih =>
    rw [insertSorted]
    split
    · exact List.mem_cons
    · split
      · rename_i hs
        rw [List.mem_cons, hs, or_self_left]
      · rw [List.mem_cons, List.mem_cons, ih, or_left_comm]

theorem pairwise_insertSorted {s : String} {l : List String} (hl : l.Pairwise (· < ·)) :
    (insertSorted s l).Pairwise (· < ·) := by
  induction l with
  | nil => exact List.pairwise_singleton _ _
  | cons u l ih =>
    obtain ⟨hu, hl'⟩ := List.pairwise_cons.mp hl
    rw [insertSorted]
    split
    · rename_i hsu
      refine List.pairwise_cons.mpr ⟨fun t ht => ?_, hl⟩
      rcases List.mem_cons.mp ht with rfl | ht
      · exact hsu
      · exact hsu.trans (hu t ht)
    · split
      · exact hl
      · rename_i hsu hne
        have hus : u < s := lt_of_le_of_ne (not_lt.mp hsu) (Ne.symm hne)
        refine List.pairwise_cons.mpr ⟨fun t ht => ?_, ih hl'⟩
        rcases mem_insertSorted.mp ht with rfl | ht
        · exact hus
        · exact hu t ht

namespace ProviderMapping

variable {m m' : ProviderMapping}

/-! ## Pairs -/

theorem mem_pairs {i p : String} : (i, p) ∈ m.pairs ↔ ∃ e ∈ m.entries, e.1 = i ∧ p ∈ e.2 := by
  simp [pairs]

/-- An insertion adds one pair. -/
theorem mem_pairs_insert {interface provider : String} {x : String × String} :
    x ∈ (m.insert interface provider).pairs ↔ x = (interface, provider) ∨ x ∈ m.pairs := by
  obtain ⟨entries⟩ := m
  simp only [insert, pairs]
  induction entries with
  | nil => simp [insertInto]
  | cons e es ih =>
    rw [insertInto]
    split
    · simp
    · split
      · rename_i he
        have hhead : x ∈ (insertSorted provider e.2).map (fun p => (e.1, p)) ↔
            x = (interface, provider) ∨ x ∈ e.2.map fun p => (e.1, p) := by
          simp only [List.mem_map, mem_insertSorted, or_and_right, exists_or, exists_eq_left, he,
            eq_comm (a := x)]
        rw [List.flatMap_cons, List.flatMap_cons, List.mem_append, List.mem_append, hhead, or_assoc]
      · rw [List.flatMap_cons, List.flatMap_cons, List.mem_append, List.mem_append, ih, or_left_comm]

/-- Insertions one by one add the pairs of their list. -/
theorem mem_pairs_foldl_insert {α : Type} {l : List α} {f : α → String × String} {x : String × String} :
    x ∈ (l.foldl (fun m a => m.insert (f a).1 (f a).2) m).pairs ↔ x ∈ m.pairs ∨ ∃ a ∈ l, x = f a := by
  induction l generalizing m with
  | nil => simp
  | cons a l ih => rw [List.foldl_cons, ih, mem_pairs_insert, List.exists_mem_cons_iff, or_assoc, or_left_comm]

/-! ## Order -/

/-- A mapping in which interfaces and the providers of each increase, and no interface is without
providers. -/
structure Ordered (m : ProviderMapping) : Prop where
  interfaces_lt : m.entries.Pairwise fun e e' => e.1 < e'.1
  providers_lt : ∀ e ∈ m.entries, e.2.Pairwise (· < ·)
  providers_ne_nil : ∀ e ∈ m.entries, e.2 ≠ []

theorem fst_of_mem_insertInto {interface provider : String} {entries : List (String × List String)}
    {e : String × List String} (he : e ∈ insertInto interface provider entries) :
    e.1 = interface ∨ ∃ e' ∈ entries, e'.1 = e.1 := by
  induction entries with
  | nil =>
    rw [insertInto, List.mem_singleton] at he
    exact .inl (congrArg Prod.fst he)
  | cons d ds ih =>
    rw [insertInto] at he
    split at he
    · rcases List.mem_cons.mp he with rfl | he
      · exact .inl rfl
      · exact .inr ⟨e, he, rfl⟩
    · split at he
      · rcases List.mem_cons.mp he with rfl | he
        · exact .inr ⟨d, List.mem_cons_self .., rfl⟩
        · exact .inr ⟨e, List.mem_cons_of_mem _ he, rfl⟩
      · rcases List.mem_cons.mp he with rfl | he
        · exact .inr ⟨e, List.mem_cons_self .., rfl⟩
        · rcases ih he with h | ⟨e', he', h⟩
          · exact .inl h
          · exact .inr ⟨e', List.mem_cons_of_mem _ he', h⟩

namespace Ordered

protected theorem empty : Ordered .empty :=
  ⟨.nil, fun _ he => absurd he List.not_mem_nil, fun _ he => absurd he List.not_mem_nil⟩

theorem cons_iff {e : String × List String} {es : List (String × List String)} :
    Ordered ⟨e :: es⟩ ↔
      ((∀ e' ∈ es, e.1 < e'.1) ∧ e.2.Pairwise (· < ·) ∧ e.2 ≠ []) ∧ Ordered ⟨es⟩ := by
  constructor
  · rintro ⟨hkeys, hsorted, hne⟩
    obtain ⟨hfirst, hrest⟩ := List.pairwise_cons.mp hkeys
    obtain ⟨hsorted₀, hsorted⟩ := List.forall_mem_cons.mp hsorted
    obtain ⟨hne₀, hne⟩ := List.forall_mem_cons.mp hne
    exact ⟨⟨hfirst, hsorted₀, hne₀⟩, hrest, hsorted, hne⟩
  · rintro ⟨⟨hfirst, hsorted₀, hne₀⟩, hrest, hsorted, hne⟩
    exact ⟨List.pairwise_cons.mpr ⟨hfirst, hrest⟩, List.forall_mem_cons.mpr ⟨hsorted₀, hsorted⟩,
      List.forall_mem_cons.mpr ⟨hne₀, hne⟩⟩

/-- An insertion keeps the order. -/
theorem insert (h : m.Ordered) (interface provider : String) : (m.insert interface provider).Ordered := by
  obtain ⟨entries⟩ := m
  show Ordered ⟨insertInto interface provider entries⟩
  induction entries with
  | nil => exact cons_iff.mpr ⟨⟨by simp, List.pairwise_singleton _ _, by simp⟩, .empty⟩
  | cons e es ih =>
    obtain ⟨⟨hfirst, hsorted, hne⟩, hrest⟩ := cons_iff.mp h
    rw [insertInto]
    split
    · rename_i hlt
      have hall : ∀ e' ∈ e :: es, interface < e'.1 :=
        List.forall_mem_cons.mpr ⟨hlt, fun e' he' => hlt.trans (hfirst e' he')⟩
      exact cons_iff.mpr ⟨⟨hall, List.pairwise_singleton _ _, by simp⟩, h⟩
    · split
      · have hne : insertSorted provider e.2 ≠ [] :=
          List.ne_nil_of_mem (mem_insertSorted.mpr (.inl rfl))
        exact cons_iff.mpr ⟨⟨hfirst, pairwise_insertSorted hsorted, hne⟩, hrest⟩
      · rename_i hge hne'
        have hlt : e.1 < interface := lt_of_le_of_ne (not_lt.mp hge) (Ne.symm hne')
        refine cons_iff.mpr ⟨⟨fun e' he' => ?_, hsorted, hne⟩, ih hrest⟩
        rcases fst_of_mem_insertInto he' with he' | ⟨d, hd, hde⟩
        · exact he' ▸ hlt
        · exact hde ▸ hfirst d hd

theorem foldl_insert {α : Type} (h : m.Ordered) (l : List α) (f : α → String × String) :
    (l.foldl (fun m a => m.insert (f a).1 (f a).2) m).Ordered := by
  induction l generalizing m with
  | nil => exact h
  | cons a l ih => exact ih (h.insert (f a).1 (f a).2)

/-- Every interface has a provider. -/
theorem mem_interfaces_iff (h : m.Ordered) {i : String} : i ∈ m.interfaces ↔ ∃ p, (i, p) ∈ m.pairs := by
  constructor
  · intro hi
    obtain ⟨e, he, rfl⟩ := List.mem_map.mp hi
    obtain ⟨p, hp⟩ := List.exists_mem_of_ne_nil e.2 (h.providers_ne_nil e he)
    exact ⟨p, mem_pairs.mpr ⟨e, he, rfl, hp⟩⟩
  · rintro ⟨p, hp⟩
    obtain ⟨e, he, rfl, -⟩ := mem_pairs.mp hp
    exact List.mem_map_of_mem he

/-- An interface has one entry. -/
theorem eq_of_fst_eq (h : m.Ordered) {e e' : String × List String} (he : e ∈ m.entries)
    (he' : e' ∈ m.entries) (heq : e.1 = e'.1) : e = e' := by
  have hkeys : m.interfaces.Nodup := List.pairwise_map.mpr (h.interfaces_lt.imp ne_of_lt)
  exact List.inj_on_of_nodup_map hkeys he he' heq

/-- An entry is determined by the pairs of its interface. -/
theorem mem_entries_of_pairs (h : m.Ordered) (h' : m'.Ordered) (hpairs : ∀ x, x ∈ m.pairs ↔ x ∈ m'.pairs)
    {e : String × List String} (he : e ∈ m.entries) : e ∈ m'.entries := by
  obtain ⟨i, ps⟩ := e
  obtain ⟨p, hp⟩ := List.exists_mem_of_ne_nil ps (h.providers_ne_nil _ he)
  obtain ⟨⟨_, ps'⟩, he', rfl, -⟩ := mem_pairs.mp ((hpairs (i, p)).mp (mem_pairs.mpr ⟨_, he, rfl, hp⟩))
  have hps : ps = ps' := by
    refine (h.providers_lt _ he).eq_of_mem_iff (h'.providers_lt _ he') fun q => ?_
    constructor
    · intro hq
      obtain ⟨d, hd, hdi, hq⟩ := mem_pairs.mp ((hpairs (_, q)).mp (mem_pairs.mpr ⟨_, he, rfl, hq⟩))
      rwa [h'.eq_of_fst_eq hd he' hdi] at hq
    · intro hq
      obtain ⟨d, hd, hdi, hq⟩ := mem_pairs.mp ((hpairs (_, q)).mpr (mem_pairs.mpr ⟨_, he', rfl, hq⟩))
      rwa [h.eq_of_fst_eq hd he hdi] at hq
  exact hps ▸ he'

/-- Mappings in order with the same pairs are equal. -/
protected theorem ext (h : m.Ordered) (h' : m'.Ordered) (hpairs : ∀ x, x ∈ m.pairs ↔ x ∈ m'.pairs) :
    m = m' := by
  have hentries : m.entries = m'.entries := by
    have : Std.Irrefl fun e e' : String × List String => e.1 < e'.1 := ⟨fun e => lt_irrefl e.1⟩
    have : Std.Antisymm fun e e' : String × List String => e.1 < e'.1 :=
      ⟨fun _ _ hlt hgt => absurd hgt hlt.asymm⟩
    refine h.interfaces_lt.eq_of_mem_iff h'.interfaces_lt fun e => ?_
    exact ⟨h.mem_entries_of_pairs h' hpairs, h'.mem_entries_of_pairs h fun x => (hpairs x).symm⟩
  obtain ⟨entries⟩ := m
  exact congrArg ProviderMapping.mk hentries

end Ordered

/-- The mapping with given pairs, which are inserted one by one. -/
def ofPairs (pairs : List (String × String)) : ProviderMapping :=
  pairs.foldl (fun m x => m.insert x.1 x.2) .empty

theorem ordered_ofPairs (pairs : List (String × String)) : (ofPairs pairs).Ordered :=
  Ordered.empty.foldl_insert pairs id

theorem mem_pairs_ofPairs {pairs : List (String × String)} {x : String × String} :
    x ∈ (ofPairs pairs).pairs ↔ x ∈ pairs := by
  have hadd : x ∈ (ofPairs pairs).pairs ↔ x ∈ empty.pairs ∨ ∃ y ∈ pairs, x = id y := mem_pairs_foldl_insert
  rw [hadd]
  simp [ProviderMapping.pairs, empty]

end ProviderMapping

end ServiceCatalog
