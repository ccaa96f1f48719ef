import Mathlib.Data.List.Shortlex
import ServiceCatalog.Source.Queue

/-!
# The order of a scan

A declaration is a node of a tree, and several nodes may look alike, so it is the place that a scan comes to once.  A
place is an address: the index of a declaration at the top of the file, then of one directly inside it, and so on.
Shorter addresses are less deep, and among addresses of one length the smaller one stands further up in the text.

* `SourceFile.at?`, `SourceFile.around`: the declaration at an address, and those that it stands in.
* `SourceFile.scanQueue_append`: the queue holds the rest of one level in front of a part of the next one.
* `SourceFile.IsLevel`, `SourceFile.IsLevel.next`: the addresses of one level, and those of the next one.
* `SourceFile.exists_isLevelOrder`: the addresses of a file in the order of its declarations.
* `scanFiles_in_levelOrder`: what a scan finds, and in which order.
-/

namespace ServiceCatalog

open List (Shortlex)

/-- The declaration that indices lead to from one: of a declaration directly inside it, then of one inside that, and so
on. -/
def ClassDecl.descend? (d : ClassDecl) : List Nat → Option ClassDecl
  | [] => some d
  | i :: is => d.declarations[i]?.bind fun inner => inner.descend? is

theorem ClassDecl.descend?_append (d : ClassDecl) (is js : List Nat) :
    d.descend? (is ++ js) = (d.descend? is).bind fun e => e.descend? js := by
  induction is generalizing d with
  | nil => rfl
  | cons i is ih =>
    rw [List.cons_append, descend?, descend?]
    cases d.declarations[i]? with
    | none => rfl
    | some inner => exact ih inner

namespace SourceFile

variable {f : SourceFile} {a b : List Nat} {n : Nat}

/-- The declaration at an address. -/
def at? (f : SourceFile) : List Nat → Option ClassDecl
  | [] => none
  | i :: is => f.declarations[i]?.bind fun d => d.descend? is

/-- The declarations that enclose an address, outermost first: those at the shorter addresses that it begins with. -/
def around (f : SourceFile) (a : List Nat) : List ClassDecl :=
  (List.range a.length).filterMap fun k => f.at? (a.take k)

/-- The declaration at an address with those around it. -/
def placedAt? (f : SourceFile) (a : List Nat) : Option Placed := (f.at? a).map fun d => ⟨f.around a, d⟩

theorem at?_append (ha : a ≠ []) (js : List Nat) : f.at? (a ++ js) = (f.at? a).bind fun d => d.descend? js := by
  cases a with
  | nil => exact absurd rfl ha
  | cons i is =>
    rw [List.cons_append, at?, at?, Option.bind_assoc]
    exact congrArg _ (funext fun d => d.descend?_append is js)

/-- The declarations directly inside an address; those at the top of the file, if it is empty. -/
def inside (f : SourceFile) : List Nat → List ClassDecl
  | [] => f.declarations
  | i :: is => (f.at? (i :: is)).elim [] ClassDecl.declarations

/-- What is directly inside an address, in its place. -/
def innerAt (f : SourceFile) (a : List Nat) : List Placed :=
  (f.inside a).map fun d => ⟨f.around a ++ (f.at? a).toList, d⟩

theorem at?_concat (a : List Nat) (i : Nat) : f.at? (a ++ [i]) = (f.inside a)[i]? := by
  cases a with
  | nil => simp [at?, inside, ClassDecl.descend?]
  | cons j js =>
    rw [at?_append (List.cons_ne_nil j js), inside]
    cases f.at? (j :: js) with
    | none => rfl
    | some d => simp [ClassDecl.descend?]

theorem around_concat (a : List Nat) (i : Nat) : f.around (a ++ [i]) = f.around a ++ (f.at? a).toList := by
  have hfront : ∀ k ∈ List.range a.length, f.at? ((a ++ [i]).take k) = f.at? (a.take k) := by
    intro k hk
    rw [List.take_append_of_le_length (List.mem_range.mp hk).le]
  have hlast : [a.length].filterMap (fun k => f.at? ((a ++ [i]).take k)) = (f.at? a).toList := by
    rw [List.filterMap_cons, List.take_left]
    cases f.at? a <;> rfl
  rw [around, List.length_append, List.length_singleton, List.range_succ, List.filterMap_append, hlast,
    List.filterMap_congr hfront]
  rfl

theorem placedAt?_concat (a : List Nat) (i : Nat) : f.placedAt? (a ++ [i]) = (f.innerAt a)[i]? := by
  rw [placedAt?, at?_concat, around_concat, innerAt, List.getElem?_map]

theorem innerAt_of_placedAt? {p : Placed} (h : f.placedAt? a = some p) : f.innerAt a = p.inner := by
  obtain ⟨d, hd, rfl⟩ := Option.map_eq_some_iff.mp h
  cases a with
  | nil => exact absurd hd nofun
  | cons i is => rw [innerAt, inside, hd, Placed.inner]; rfl

/-- A declaration stands inside others, so there is one at each shorter address that its own begins with. -/
theorem isSome_at?_take (h : (f.at? a).isSome) (hn : 0 < n) : (f.at? (a.take n)).isSome := by
  by_cases hnil : a.take n = []
  · have ha : a = [] := (List.take_eq_nil_iff.mp hnil).resolve_left hn.ne'
    exact absurd h (by simp [ha, at?])
  · rw [← List.take_append_drop n a, at?_append hnil] at h
    exact Option.isSome_of_isSome_bind h

/-! ## Levels -/

/-- The addresses directly inside one. -/
def addressesIn (f : SourceFile) (a : List Nat) : List (List Nat) :=
  (List.range (f.innerAt a).length).map fun i => a ++ [i]

theorem mem_addressesIn : b ∈ f.addressesIn a ↔ ∃ i, b = a ++ [i] ∧ (f.at? b).isSome := by
  have hsome : ∀ i, (f.at? (a ++ [i])).isSome ↔ i < (f.innerAt a).length := by
    intro i
    rw [at?_concat, innerAt, List.length_map]
    simp
  rw [addressesIn, List.mem_map]
  constructor
  · rintro ⟨i, hi, rfl⟩
    exact ⟨i, rfl, (hsome i).mpr (List.mem_range.mp hi)⟩
  · rintro ⟨i, rfl, h⟩
    exact ⟨i, List.mem_range.mpr ((hsome i).mp h), rfl⟩

theorem pairwise_addressesIn (f : SourceFile) (a : List Nat) : (f.addressesIn a).Pairwise (Shortlex (· < ·)) := by
  refine List.pairwise_map.mpr (List.pairwise_lt_range.imp fun hlt => ?_)
  exact Shortlex.append_left ((List.shortlex_singleton_iff _ _).mpr hlt) a

theorem map_placedAt?_addressesIn (f : SourceFile) (a : List Nat) :
    (f.addressesIn a).map f.placedAt? = (f.innerAt a).map some := by
  refine List.ext_getElem? fun i => ?_
  simp only [addressesIn, List.map_map, List.getElem?_map]
  by_cases hi : i < (f.innerAt a).length
  · simp [hi, placedAt?_concat]
  · simp [hi]

/-- Whether addresses are those of one length, in their order, and declarations in their place those at them. -/
structure IsLevel (f : SourceFile) (n : Nat) (addresses : List (List Nat)) (level : List Placed) : Prop where
  mem_iff : ∀ a, a ∈ addresses ↔ a.length = n ∧ (f.at? a).isSome
  pairwise : addresses.Pairwise (Shortlex (· < ·))
  map_placedAt? : addresses.map f.placedAt? = level.map some

theorem isLevel_top (f : SourceFile) : f.IsLevel 1 (f.addressesIn []) (f.declarations.map .top) where
  mem_iff a := by
    rw [mem_addressesIn, List.length_eq_one_iff]
    exact exists_and_right
  pairwise := f.pairwise_addressesIn []
  map_placedAt? := f.map_placedAt?_addressesIn []

/-- Of two addresses of one length, all inside the smaller one come before all inside the other one. -/
theorem shortlex_concat (hlength : a.length = b.length) (h : Shortlex (· < ·) a b) (i j : Nat) :
    Shortlex (· < ·) (a ++ [i]) (b ++ [j]) := by
  have hlex : List.Lex (· < ·) (a ++ [i]) (b ++ [j]) := by
    have h := (List.shortlex_iff_lex hlength).mp h
    induction h with
    | nil => exact absurd hlength nofun
    | cons _ ih => exact .cons (ih (Nat.succ.inj hlength) ((List.shortlex_iff_lex (Nat.succ.inj hlength)).mpr ‹_›))
    | rel hlt => exact .rel hlt
  exact Shortlex.of_lex (by simp [hlength]) hlex

theorem map_placedAt?_next {addresses : List (List Nat)} {level : List Placed}
    (h : addresses.map f.placedAt? = level.map some) :
    (addresses.flatMap f.addressesIn).map f.placedAt? = (level.flatMap Placed.inner).map some := by
  have hinner : ∀ a ∈ addresses, f.innerAt a = (f.placedAt? a).elim [] Placed.inner := by
    intro a ha
    obtain ⟨p, -, hp⟩ := List.mem_map.mp (h ▸ List.mem_map_of_mem ha)
    rw [innerAt_of_placedAt? hp.symm, ← hp]
    rfl
  calc (addresses.flatMap f.addressesIn).map f.placedAt?
      = (addresses.flatMap f.innerAt).map some := by simp only [List.map_flatMap, map_placedAt?_addressesIn]
    _ = ((addresses.map f.placedAt?).flatMap fun p? => p?.elim [] Placed.inner).map some := by
      rw [List.flatMap_map, List.flatMap_congr hinner]
    _ = (level.flatMap Placed.inner).map some := by rw [h, List.flatMap_map]; rfl

/-- One level further down are the addresses directly inside those of a level. -/
theorem IsLevel.next {addresses : List (List Nat)} {level : List Placed} (h : f.IsLevel (n + 1) addresses level) :
    f.IsLevel (n + 2) (addresses.flatMap f.addressesIn) (level.flatMap Placed.inner) where
  mem_iff a := by
    rw [List.mem_flatMap]
    constructor
    · rintro ⟨b, hb, ha⟩
      obtain ⟨i, rfl, hsome⟩ := mem_addressesIn.mp ha
      exact ⟨by rw [List.length_append, ((h.mem_iff b).mp hb).1]; rfl, hsome⟩
    · rintro ⟨hlength, hsome⟩
      obtain rfl | ⟨b, i, rfl⟩ := a.eq_nil_or_concat
      · exact absurd hlength nofun
      rw [List.concat_eq_append] at hlength hsome ⊢
      have hb : b.length = n + 1 := by simpa using hlength
      have hfront : (f.at? ((b ++ [i]).take b.length)).isSome := isSome_at?_take hsome (by omega)
      rw [List.take_left] at hfront
      exact ⟨b, (h.mem_iff b).mpr ⟨hb, hfront⟩, mem_addressesIn.mpr ⟨i, rfl, hsome⟩⟩
  pairwise := by
    rw [List.pairwise_flatMap]
    refine ⟨fun a _ => f.pairwise_addressesIn a, h.pairwise.imp_of_mem fun ha hb hlt x hx y hy => ?_⟩
    obtain ⟨i, rfl, -⟩ := mem_addressesIn.mp hx
    obtain ⟨j, rfl, -⟩ := mem_addressesIn.mp hy
    exact shortlex_concat (((h.mem_iff _).mp ha).1.trans ((h.mem_iff _).mp hb).1.symm) hlt i j
  map_placedAt? := map_placedAt?_next h.map_placedAt?

/-- From any level on, the levels list what stands at the addresses of at least that length, in their order. -/
theorem IsLevel.exists_below {addresses : List (List Nat)} {level : List Placed}
    (h : f.IsLevel (n + 1) addresses level) :
    ∃ below : List (List Nat), (∀ a, a ∈ below ↔ n + 1 ≤ a.length ∧ (f.at? a).isSome) ∧
      below.Pairwise (Shortlex (· < ·)) ∧ below.map f.placedAt? = (Placed.levels level).map some := by
  fun_induction Placed.levels level generalizing n addresses with
  | case1 =>
    -- An address that leads further would begin with one of the length of the level.
    have hnone : ∀ a, ¬ (n + 1 ≤ a.length ∧ (f.at? a).isSome) := by
      rintro a ⟨hlength, hsome⟩
      have hfront := (h.mem_iff (a.take (n + 1))).mpr
        ⟨List.length_take_of_le hlength, isSome_at?_take hsome (Nat.succ_pos n)⟩
      rw [List.map_eq_nil_iff.mp h.map_placedAt?] at hfront
      exact List.not_mem_nil hfront
    exact ⟨[], fun a => iff_of_false List.not_mem_nil (hnone a), .nil, rfl⟩
  | case2 p ps ih =>
    obtain ⟨below, hmem, hpairwise, hmap⟩ := ih h.next
    refine ⟨addresses ++ below, fun a => ?_, ?_, ?_⟩
    · rw [List.mem_append, h.mem_iff, hmem, ← or_and_right]
      exact and_congr_left fun _ => by omega
    · refine List.pairwise_append.mpr ⟨h.pairwise, hpairwise, fun a ha b hb => Shortlex.of_length_lt ?_⟩
      have hshort := ((h.mem_iff a).mp ha).1
      have hlong := ((hmem b).mp hb).1
      omega
    · rw [List.map_append, List.map_append, h.map_placedAt?, hmap]

/-- Whether addresses are those of all declarations of a file: the shorter ones first, and those of one length in the
order of the text. -/
structure IsLevelOrder (f : SourceFile) (addresses : List (List Nat)) : Prop where
  mem_iff : ∀ a, a ∈ addresses ↔ (f.at? a).isSome
  pairwise : addresses.Pairwise (Shortlex (· < ·))

/-- The declarations of a file stand at its addresses, one at each. -/
theorem exists_isLevelOrder (f : SourceFile) :
    ∃ addresses, f.IsLevelOrder addresses ∧ addresses.map f.placedAt? = f.placed.map some := by
  obtain ⟨addresses, hmem, hpairwise, hmap⟩ := f.isLevel_top.exists_below
  refine ⟨addresses, ⟨fun a => (hmem a).trans (and_iff_right_of_imp fun hsome => ?_), hpairwise⟩, hmap⟩
  cases a with
  | nil => exact absurd hsome nofun
  | cons i is => exact Nat.succ_le_succ (Nat.zero_le _)

/-! ## The queue -/

variable (f) (wanted : DottedName)

/-- What is in front of the queue is noted, and what is inside that comes behind all the rest. -/
theorem scanQueue_append (front rest : List Placed) (found : List Scanned) :
    f.scanQueue wanted (front ++ rest) found =
      f.scanQueue wanted (rest ++ front.flatMap Placed.inner) (found ++ front.filterMap (Scanned.of? wanted f)) := by
  induction front generalizing rest found with
  | nil => simp
  | cons p front ih =>
    rw [List.cons_append, scanQueue, List.append_assoc, ih]
    cases hp : Scanned.of? wanted f p <;> simp [hp]

/-- A queue that holds a level notes what carries the annotation there and further down, level by level. -/
theorem scanQueue_eq (level : List Placed) (found : List Scanned) :
    f.scanQueue wanted level found = found ++ (Placed.levels level).filterMap (Scanned.of? wanted f) := by
  fun_induction Placed.levels level generalizing found with
  | case1 => rw [scanQueue, List.filterMap_nil, List.append_nil]
  | case2 p ps ih =>
    have happend := f.scanQueue_append wanted (p :: ps) [] found
    rw [List.append_nil, List.nil_append] at happend
    rw [happend, ih, List.filterMap_append, List.append_assoc]

theorem scanInto_eq (found : List Scanned) : f.scanInto wanted found = found ++ f.scan wanted :=
  f.scanQueue_eq wanted _ found

/-- What a scan notes of the declaration at an address. -/
def scannedAt? (a : List Nat) : Option Scanned :=
  (f.at? a).bind fun d => (f.find? d.annotations wanted).map fun found => ⟨f, ⟨f.around a, d⟩, found⟩

/-- Whether a scan notes a declaration. -/
def accepts (d : ClassDecl) : Bool := (f.find? d.annotations wanted).isSome

variable {f} {addresses : List (List Nat)}

theorem map_at? (h : addresses.map f.placedAt? = f.placed.map some) :
    addresses.map f.at? = f.allDeclarations.map some := by
  have hdecl : ∀ a, f.at? a = (f.placedAt? a).map Placed.decl := by
    intro a
    rw [placedAt?, Option.map_map]
    exact (congrFun Option.map_id _).symm
  rw [← map_decl_placed, List.map_congr_left fun a _ => hdecl a]
  simpa [Function.comp_def] using congrArg (List.map (Option.map Placed.decl)) h

theorem scan_eq_filterMap (h : addresses.map f.placedAt? = f.placed.map some) :
    f.scan wanted = addresses.filterMap (f.scannedAt? wanted) := by
  have hscanned : ∀ a, f.scannedAt? wanted a = (f.placedAt? a).bind (Scanned.of? wanted f) := by
    intro a
    rw [scannedAt?, placedAt?, Option.bind_map]
    rfl
  calc f.scan wanted
      = (f.placed.map some).filterMap fun p? => p?.bind (Scanned.of? wanted f) := by rw [scan, List.filterMap_map]; rfl
    _ = addresses.filterMap fun a => (f.placedAt? a).bind (Scanned.of? wanted f) := by rw [← h, List.filterMap_map]; rfl
    _ = addresses.filterMap (f.scannedAt? wanted) := by simp only [hscanned]

theorem map_decl_scan : (f.scan wanted).map (fun s => s.place.decl) = f.allDeclarations.filter (f.accepts wanted) := by
  rw [← map_decl_placed, scan]
  induction f.placed with
  | nil => rfl
  | cons p ps ih =>
    rw [List.map_cons, List.filter_cons, accepts, ← ih, List.filterMap_cons, Scanned.of?]
    cases f.find? p.decl.annotations wanted <;> rfl

end SourceFile

variable (wanted : DottedName) (sources : List SourceFile)

/-- Going through the files with queues finds what going through their levels does. -/
theorem scanFiles_eq : scanFiles wanted sources = scan wanted sources := by
  have hfound : ∀ found : List Scanned, sources.foldl (fun found f => f.scanInto wanted found) found =
      found ++ sources.flatMap fun f => f.scan wanted := by
    induction sources with
    | nil => simp
    | cons f sources ih =>
      intro found
      rw [List.foldl_cons, ih, SourceFile.scanInto_eq, List.flatMap_cons, List.append_assoc]
  exact hfound []

/-- The declarations of a file are those at its addresses, one at each, in level order.  A scan with queues notes, file
by file and in this order, those of them that carry the annotation, each with the declarations around its address; and
going through the levels does the same. -/
theorem scanFiles_in_levelOrder :
    ∃ addresses : SourceFile → List (List Nat),
      (∀ f, f.IsLevelOrder (addresses f) ∧ (addresses f).map f.at? = f.allDeclarations.map some) ∧
      scanFiles wanted sources = sources.flatMap (fun f => (addresses f).filterMap (f.scannedAt? wanted)) ∧
      (scanFiles wanted sources).map (fun s => s.place.decl) =
        sources.flatMap (fun f => f.allDeclarations.filter (f.accepts wanted)) ∧
      scan wanted sources = scanFiles wanted sources := by
  choose addresses hlevelOrder hplaced using SourceFile.exists_isLevelOrder
  refine ⟨addresses, fun f => ⟨hlevelOrder f, SourceFile.map_at? (hplaced f)⟩, ?_, ?_,
    (scanFiles_eq wanted sources).symm⟩
  · rw [scanFiles_eq, scan]
    exact List.flatMap_congr fun f _ => SourceFile.scan_eq_filterMap wanted (hplaced f)
  · rw [scanFiles_eq, scan, List.map_flatMap]
    exact List.flatMap_congr fun f _ => SourceFile.map_decl_scan wanted

end ServiceCatalog
