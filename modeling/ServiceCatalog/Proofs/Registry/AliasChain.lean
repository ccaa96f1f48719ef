import ServiceCatalog.Proofs.Registry.Precedence
import ServiceCatalog.Registry.Platform

/-!
# Chains of type aliases

The target of a type alias may name another type alias, so what an alias stands for is at the end of a chain.  A
chain goes on as long as the targets name no class: a class is in front of an alias of the same name.

Following a chain stops at an alias that was passed before and after sixteen aliases.  Of the two only the bound can
be noticed, since a chain that comes back to one of its aliases has no end.

* `Reachable`: registries that are filled by calls, among them the one of the platform types.
* `EndsIn`, `Leads`: chains of aliases, to the class at their end and to a name on their way.
* `follow?_eq_some_iff`: the class that is found from an alias on, whatever has been passed before it.
* `expand?_follows_chain`: an alias stands for the class at the end of its chain of at most sixteen aliases.
-/

namespace ServiceCatalog.Registry

variable {r : Registry}

/-! ## Registries behind calls -/

/-- Whether a registry is filled by calls, of whatever answers, from nothing on. -/
def Reachable (r : Registry) : Prop := ∃ calls, r = empty.afterCalls calls

theorem Reachable.afterCalls (h : r.Reachable) (calls : List RegistryCall) : (r.afterCalls calls).Reachable := by
  obtain ⟨before, rfl⟩ := h
  exact ⟨before ++ calls, List.foldl_append.symm⟩

/-- A platform type gives way to nothing and is never refused. -/
theorem registerClass_platform (r : Registry) (c : ClassName) (kind : EntryKind) :
    r.registerClass ⟨c, kind, .platform⟩ = .ok (r.putClass ⟨c, kind, .platform⟩) := by
  rw [registerClass]
  split
  · next h => cases h
  · next h => cases h
  · rfl

theorem Reachable.putPlatformType (h : r.Reachable) (t : PlatformType) : (r.putPlatformType t).Reachable := by
  have hcalls : r.putPlatformType t =
      r.afterCalls (t.supertypes.map (fun s => RegistryCall.addSupertype t.className (PlatformType.topLevelOf s)) ++
        [RegistryCall.registerClass ⟨t.className, t.kind, .platform⟩]) := by
    rw [Registry.afterCalls, List.foldl_append, List.foldl_map, List.foldl_cons, List.foldl_nil]
    show _ = (registered _ _ (registerClass _ _)).2
    rw [registerClass_platform]
    rfl
  rw [hcalls]
  exact h.afterCalls _

theorem reachable_platform : platform.Reachable := by
  rw [platform]
  have hempty : empty.Reachable := ⟨[], rfl⟩
  generalize empty = r at hempty
  induction PlatformType.all generalizing r with
  | nil => exact hempty
  | cons t ts ih => exact ih _ (hempty.putPlatformType t)

/-- Whether every type alias is found at its own place. -/
def AliasesInPlace (r : Registry) : Prop := ∀ n a, r.alias? n = some a → n.place = a.name.place

theorem AliasesInPlace.call (h : r.AliasesInPlace) (call : RegistryCall) : (r.call call).2.AliasesInPlace := by
  intro n a ha
  cases call with
  | registerClass e =>
    have hcall : (RegistryCall.registerClass e).IsRegistration := trivial
    exact h n a (alias?_call_of_none hcall rfl n ▸ ha)
  | registerFile f =>
    have hcall : (RegistryCall.registerFile f).IsRegistration := trivial
    exact h n a (alias?_call_of_none hcall rfl n ▸ ha)
  | registerAlias new =>
    rw [alias?_call_of_some rfl] at ha
    split at ha
    · next hplace =>
      cases hold : r.alias? n with
      | none =>
        rw [hold] at ha
        exact Option.some.inj ha ▸ hplace
      | some old =>
        rw [hold, AliasEntry.over] at ha
        split at ha
        · exact h n a (Option.some.inj ha ▸ hold)
        · exact Option.some.inj ha ▸ hplace
    · exact h n a ha
  | linkAlias name target =>
    rw [Registry.call] at ha
    split at ha
    · next r' hr =>
      rw [alias?_linkAlias? hr] at ha
      split at ha
      · obtain ⟨old, hold, rfl⟩ := Option.map_eq_some_iff.mp ha
        exact h n old hold
      · exact h n a ha
    · exact h n a ha
  | addSupertype sub super => exact h n a ha

theorem Reachable.aliasesInPlace (h : r.Reachable) : r.AliasesInPlace := by
  obtain ⟨calls, rfl⟩ := h
  have hempty : empty.AliasesInPlace := fun n a ha => absurd (mem_aliases_of_alias? ha) List.not_mem_nil
  generalize empty = r at hempty
  induction calls generalizing r with
  | nil => exact hempty
  | cons call calls ih => exact ih _ (hempty.call call)

/-! ## Chains -/

/-- Whether a name is that of a type alias with a given target. -/
def LinkedTo (r : Registry) (n t : DottedName) : Prop := ∃ a, r.alias? n = some a ∧ a.target = some t

/-- Whether a chain of `k` aliases leads from a name to another one, and the names of none of the targets on the way
are those of classes. -/
inductive Leads (r : Registry) : Nat → DottedName → DottedName → Prop where
  | here (n : DottedName) : r.Leads 0 n n
  | next {k : Nat} {n t m : DottedName} (hlink : r.LinkedTo n t) (hclass : r.findClass? t = none)
      (hrest : r.Leads k t m) : r.Leads (k + 1) n m

/-- Whether the chain that begins with the alias of a given name has `k` aliases and ends in a class, which is the
first one that a target names. -/
inductive EndsIn (r : Registry) : Nat → DottedName → ClassEntry → Prop where
  | last {n t : DottedName} {c : ClassEntry} (hlink : r.LinkedTo n t) (hclass : r.findClass? t = some c) :
      r.EndsIn 1 n c
  | next {k : Nat} {n t : DottedName} {c : ClassEntry} (hlink : r.LinkedTo n t) (hclass : r.findClass? t = none)
      (hrest : r.EndsIn k t c) : r.EndsIn (k + 1) n c

variable {j k : Nat} {n m t : DottedName} {c : ClassEntry}

theorem LinkedTo.unique {t' : DottedName} (h : r.LinkedTo n t) (h' : r.LinkedTo n t') : t = t' := by
  obtain ⟨a, ha, ht⟩ := h
  obtain ⟨a', ha', ht'⟩ := h'
  obtain rfl : a = a' := Option.some.inj (ha.symm.trans ha')
  exact Option.some.inj (ht.symm.trans ht')

theorem Leads.concat (h : r.Leads k n m) (hlink : r.LinkedTo m t) (hclass : r.findClass? t = none) :
    r.Leads (k + 1) n t := by
  induction h with
  | here n => exact .next hlink hclass (.here t)
  | next hlink' hclass' _ ih => exact .next hlink' hclass' (ih hlink)

/-- A chain is the same from every name of its first alias. -/
theorem Leads.of_alias?_eq (h : r.Leads (k + 1) n t) (heq : r.alias? n = r.alias? m) : r.Leads (k + 1) m t := by
  cases h with
  | next hlink hclass hrest =>
    obtain ⟨a, ha, htarget⟩ := hlink
    exact .next ⟨a, heq ▸ ha, htarget⟩ hclass hrest

theorem EndsIn.pos (h : r.EndsIn k n c) : 0 < k := by
  cases h <;> exact Nat.succ_pos _

theorem EndsIn.exists_linkedTo (h : r.EndsIn k n c) : ∃ t, r.LinkedTo n t := by
  cases h with
  | last hlink _ => exact ⟨_, hlink⟩
  | next hlink _ _ => exact ⟨_, hlink⟩

/-- A chain ends with an alias whose target names a class. -/
theorem endsIn_iff_of_class {e : ClassEntry} (hlink : r.LinkedTo n t) (hclass : r.findClass? t = some e) :
    r.EndsIn k n c ↔ k = 1 ∧ e = c := by
  constructor
  · intro h
    cases h with
    | last hlink' hclass' =>
      obtain rfl := hlink.unique hlink'
      exact ⟨rfl, Option.some.inj (hclass.symm.trans hclass')⟩
    | next hlink' hclass' _ =>
      obtain rfl := hlink.unique hlink'
      exact absurd (hclass.symm.trans hclass') nofun
  · rintro ⟨rfl, rfl⟩
    exact .last hlink hclass

/-- Where the target of an alias names no class, its chain goes on with the alias of that name. -/
theorem endsIn_iff_of_none (hlink : r.LinkedTo n t) (hclass : r.findClass? t = none) :
    r.EndsIn k n c ↔ ∃ j, k = j + 1 ∧ r.EndsIn j t c := by
  constructor
  · intro h
    cases h with
    | last hlink' hclass' =>
      obtain rfl := hlink.unique hlink'
      exact absurd (hclass.symm.trans hclass') nofun
    | next hlink' _ hrest =>
      obtain rfl := hlink.unique hlink'
      exact ⟨_, rfl, hrest⟩
  · rintro ⟨j, rfl, hrest⟩
    exact .next hlink hclass hrest

/-- From a name on the way of a chain the rest of the chain leads to the same end. -/
theorem EndsIn.rest (h : r.EndsIn k n c) (hway : r.Leads j n m) : ∃ i, k = j + i ∧ r.EndsIn i m c := by
  induction hway generalizing k with
  | here n => exact ⟨k, (Nat.zero_add k).symm, h⟩
  | next hlink hclass _ ih =>
    obtain ⟨k, rfl, hrest⟩ := (endsIn_iff_of_none hlink hclass).mp h
    obtain ⟨i, rfl, hend⟩ := ih hrest
    exact ⟨i, Nat.add_right_comm .., hend⟩

/-- A chain that comes back to its beginning has no end: behind the round it would be shorter than itself. -/
theorem not_endsIn_of_leads_self (hround : r.Leads (j + 1) n n) : ¬ r.EndsIn k n c := by
  induction k using Nat.strong_induction_on with
  | h k ih =>
    intro hend
    obtain ⟨i, rfl, hrest⟩ := hend.rest hround
    exact ih i (by omega) hrest

/-! ## Following a chain -/

/-- From an alias on, the class at the end of its chain is found if the chain is not too long.  What was passed
before are names of aliases from which the chain has come; so one that is met again closes a round. -/
theorem follow?_eq_some_iff (hplaces : r.AliasesInPlace) {fuel : Nat} {passed : List DottedName} {a : AliasEntry}
    (ha : r.alias? n = some a)
    (hpassed : ∀ p ∈ passed, ∃ m b j, r.alias? m = some b ∧ b.name = p ∧ r.Leads (j + 1) m n) :
    r.follow? fuel passed a = some c ↔ ∃ k ≤ fuel, r.EndsIn k n c := by
  induction fuel generalizing n passed a with
  | zero =>
    refine ⟨fun h => (by cases h), ?_⟩
    rintro ⟨k, hk, hend⟩
    exact absurd hend.pos (by omega)
  | succ fuel ih =>
    rw [follow?]
    by_cases hmet : a.name ∈ passed
    · rw [if_pos (List.contains_iff_mem.mpr hmet)]
      refine ⟨fun h => absurd h (by simp), ?_⟩
      rintro ⟨k, -, hend⟩
      obtain ⟨m, b, j, hb, hname, hleads⟩ := hpassed a.name hmet
      have hplace : m.place = n.place := by rw [hplaces m b hb, hname, hplaces n a ha]
      exact absurd hend (not_endsIn_of_leads_self (hleads.of_alias?_eq (r.alias?_eq_of_place hplace)))
    · rw [if_neg (mt List.contains_iff_mem.mp hmet)]
      cases htarget : a.target with
      | none =>
        refine ⟨fun h => absurd h (by simp), ?_⟩
        rintro ⟨k, -, hend⟩
        obtain ⟨t, a', ha', ht⟩ := hend.exists_linkedTo
        obtain rfl : a = a' := Option.some.inj (ha.symm.trans ha')
        exact absurd (htarget.symm.trans ht) (by simp)
      | some t =>
        have hlink : r.LinkedTo n t := ⟨a, ha, htarget⟩
        rw [Option.bind_some]
        cases hclass : r.findClass? t with
        | some e =>
          simp only [endsIn_iff_of_class hlink hclass, Option.some.injEq]
          constructor
          · exact fun h => ⟨1, by omega, rfl, h⟩
          · rintro ⟨-, -, -, h⟩
            exact h
        | none =>
          have hlonger : (∃ k ≤ fuel + 1, r.EndsIn k n c) ↔ ∃ k ≤ fuel, r.EndsIn k t c := by
            simp only [endsIn_iff_of_none hlink hclass]
            constructor
            · rintro ⟨k, hk, j, rfl, hend⟩
              exact ⟨j, Nat.le_of_succ_le_succ hk, hend⟩
            · rintro ⟨j, hj, hend⟩
              exact ⟨j + 1, Nat.succ_le_succ hj, j, rfl, hend⟩
          rw [hlonger]
          cases hnext : r.alias? t with
          | none =>
            refine ⟨fun h => absurd h (by simp), ?_⟩
            rintro ⟨k, -, hend⟩
            obtain ⟨-, b, hb, -⟩ := hend.exists_linkedTo
            exact absurd (hnext.symm.trans hb) (by simp)
          | some b =>
            refine ih hnext (List.forall_mem_cons.mpr ⟨⟨n, a, 0, ha, rfl, .next hlink hclass (.here t)⟩, ?_⟩)
            intro p hp
            obtain ⟨m, b, j, hb, hname, hleads⟩ := hpassed p hp
            exact ⟨m, b, j + 1, hb, hname, hleads.concat hlink hclass⟩

theorem expand?_eq_some_iff (hplaces : r.AliasesInPlace) :
    r.expand? n = some c ↔ ∃ k ≤ maxChain, r.EndsIn k n c := by
  rw [expand?]
  cases ha : r.alias? n with
  | none =>
    refine ⟨fun h => absurd h (by simp), ?_⟩
    rintro ⟨k, -, hend⟩
    obtain ⟨-, a, ha', -⟩ := hend.exists_linkedTo
    exact absurd (ha.symm.trans ha') (by simp)
  | some a => exact follow?_eq_some_iff hplaces ha fun p hp => absurd hp List.not_mem_nil

/-- An alias stands for a class exactly if its chain ends in the class after at most sixteen aliases.  So it stands
for none if the chain stops at a name that is no linked alias, comes back to a name on its way, or goes on behind
sixteen aliases. -/
theorem expand?_follows_chain (h : r.Reachable) (n : DottedName) :
    (∀ c, r.expand? n = some c ↔ ∃ k ≤ 16, r.EndsIn k n c) ∧
    (∀ k m, r.Leads k n m → (∀ t, ¬ r.LinkedTo m t) → r.expand? n = none) ∧
    (∀ k m, r.Leads k n m → ∀ j, r.Leads (j + 1) m m → r.expand? n = none) ∧
    ∀ k m, r.Leads k n m → 16 ≤ k → r.expand? n = none := by
  have hiff : ∀ c, r.expand? n = some c ↔ ∃ k ≤ 16, r.EndsIn k n c :=
    fun c => expand?_eq_some_iff h.aliasesInPlace
  have hnone : (∀ k c, k ≤ 16 → ¬ r.EndsIn k n c) → r.expand? n = none := by
    intro hends
    refine Option.eq_none_iff_forall_not_mem.mpr fun c hc => ?_
    obtain ⟨k, hk, hend⟩ := (hiff c).mp hc
    exact hends k c hk hend
  refine ⟨hiff, fun k m hway hstop => hnone fun l c hl hend => ?_,
    fun k m hway j hround => hnone fun l c hl hend => ?_, fun k m hway hk => hnone fun l c hl hend => ?_⟩
  · obtain ⟨i, -, hrest⟩ := hend.rest hway
    obtain ⟨t, hlink⟩ := hrest.exists_linkedTo
    exact hstop t hlink
  · obtain ⟨i, -, hrest⟩ := hend.rest hway
    exact not_endsIn_of_leads_self hround hrest
  · obtain ⟨i, rfl, hrest⟩ := hend.rest hway
    have hpos := hrest.pos
    omega

/-! ### Seventeen aliases in a row -/

namespace Ladder

/-- The name of an alias, by its number. -/
def name (i : Nat) : DottedName := ⟨["p", toString i]⟩

/-- The class at the end. -/
def top : ClassEntry := ⟨⟨⟨["p"]⟩, ⟨["17"]⟩⟩, .class, .source⟩

/-- The aliases, each with the next one as its target, and an alias with the name of the class. -/
def calls : List RegistryCall :=
  .registerClass top :: .registerAlias ⟨name 17, some (name 0), .source⟩ ::
    (List.range 17).map fun i => .registerAlias ⟨name i, some (name (i + 1)), .source⟩

/-- The registry of the aliases. -/
def registry : Registry := empty.afterCalls calls

theorem linkedTo_name {i : Nat} (hi : i < 17) : registry.LinkedTo (name i) (name (i + 1)) := by
  have hlinked : ∀ i < 17, registry.alias? (name i) = some ⟨name i, some (name (i + 1)), .source⟩ := by decide +kernel
  exact ⟨_, hlinked i hi, rfl⟩

theorem findClass?_name {i : Nat} (hi : i < 17) : registry.findClass? (name i) = none := by
  have hnone : ∀ i < 17, registry.findClass? (name i) = none := by decide +kernel
  exact hnone i hi

theorem leads_name {k : Nat} (hk : k < 17) : registry.Leads k (name 0) (name k) := by
  induction k with
  | zero => exact .here _
  | succ k ih => exact (ih (by omega)).concat (linkedTo_name (by omega)) (findClass?_name hk)

theorem endsIn_top {k : Nat} (hk : k < 17) : registry.EndsIn (k + 1) (name (16 - k)) top := by
  induction k with
  | zero => exact .last (linkedTo_name (by decide)) (by decide +kernel)
  | succ k ih =>
    have hlink := linkedTo_name (i := 16 - (k + 1)) (by omega)
    have hstep : 16 - (k + 1) + 1 = 16 - k := by omega
    rw [hstep] at hlink
    exact .next hlink (findClass?_name (by omega)) (ih (by omega))

/-- Sixteen aliases are followed to the class, and seventeen are not. -/
theorem expand?_second_and_first : registry.Reachable ∧ registry.expand? (name 1) = some top ∧
    registry.expand? (name 0) = none := by
  have hreachable : registry.Reachable := ⟨calls, rfl⟩
  obtain ⟨hends, -, -, -⟩ := expand?_follows_chain hreachable (name 1)
  obtain ⟨-, -, -, hlong⟩ := expand?_follows_chain hreachable (name 0)
  exact ⟨hreachable, (hends top).mpr ⟨16, Nat.le_refl _, endsIn_top (by decide)⟩,
    hlong 16 (name 16) (leads_name (by decide)) (Nat.le_refl _)⟩

end Ladder

end ServiceCatalog.Registry
