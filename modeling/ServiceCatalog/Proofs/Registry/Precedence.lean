import ServiceCatalog.Proofs.Registry.Calls

/-!
# Which entry of a name stays

A registration brings an entry to a place of the registry: a class or a type alias, from one of the layers.  Where
the place is taken, the layers decide which of the two entries stays, and nothing else does.

* `ClassEntry.over`, `AliasEntry.over`: the entry that stays where another one is registered.
* `class?_call`, `alias?_call`: the look-ups behind a call, by what the call brings.
* `source_stays_iff`: an entry of the sources is found behind each of several registrations exactly if none of them
  brings an entry of another layer to its place.  By its dotted name a class is found as long as, besides, none of
  them brings a class of that name with a longer package.
* `not_forall_source_stays`: a class of the sources that gives way to a class file.
-/

namespace ServiceCatalog

/-- The class that stays at a place where a new one is registered.  Of two declarations in sources and of two class
files it is the one that is there. -/
def ClassEntry.over (new : ClassEntry) : Option ClassEntry → ClassEntry
  | none => new
  | some old => if old.origin = new.origin ∧ new.origin ≠ .platform then old else new

/-- The type alias that stays at a place where a new one is registered.  Of two declarations in sources it is the one
that is there. -/
def AliasEntry.over (new : AliasEntry) : Option AliasEntry → AliasEntry
  | none => new
  | some old => if old.origin = .source ∧ new.origin = .source then old else new

namespace RegistryCall

/-- The class that a call brings: a declaration, or the class of a class file that describes no module. -/
def class? : RegistryCall → Option ClassEntry
  | registerClass e => some e
  | registerFile f =>
    if f.isModule then none else f.className?.map fun c => ⟨c, Registry.kindOf f, .classPath⟩
  | _ => none

/-- The type alias that a call brings. -/
def alias? : RegistryCall → Option AliasEntry
  | registerAlias a => some a
  | _ => none

/-- Whether a call registers a class or a type alias. -/
def IsRegistration : RegistryCall → Prop
  | registerClass _ | registerFile _ | registerAlias _ => True
  | linkAlias .. | addSupertype .. => False

/-- Whether a call brings a class from elsewhere than the sources to the place of a given one. -/
def Displaces (call : RegistryCall) (c : ClassName) : Prop :=
  ∃ e, call.class? = some e ∧ c.place = e.name.place ∧ e.origin ≠ .source

/-- Whether a call brings a class of a dotted name whose package is longer than that of a given one. -/
def Hides (call : RegistryCall) (n : DottedName) (c : ClassName) : Prop :=
  ∃ e, call.class? = some e ∧ ∃ d ∈ Registry.cuts n, c.package.size < d.package.size ∧ d.place = e.name.place

/-- Whether a call brings a type alias from elsewhere than the sources to the place of a given one. -/
def DisplacesAlias (call : RegistryCall) (n : DottedName) : Prop :=
  ∃ a, call.alias? = some a ∧ n.place = a.name.place ∧ a.origin ≠ .source

end RegistryCall

namespace Registry

variable {r : Registry}

/-- Classes with one place have one entry. -/
theorem class?_eq_of_place (r : Registry) {c d : ClassName} (h : c.place = d.place) : r.class? c = r.class? d := by
  obtain ⟨hpackage, htext⟩ := Prod.mk.inj h
  rw [class?, class?, hpackage, htext]

/-! ### The look-ups behind a call -/

/-- An entry of a place stays when another one of its layer is registered there, unless that is the platform. -/
theorem some_over_of_origin {old : Option ClassEntry} {new : ClassEntry} {origin : Origin}
    (hold : old.map ClassEntry.origin = some origin) (hnew : new.origin = origin) (hlayer : origin ≠ .platform) :
    some (new.over old) = old := by
  obtain ⟨e, rfl, horigin⟩ := Option.map_eq_some_iff.mp hold
  rw [ClassEntry.over, if_pos ⟨horigin.trans hnew.symm, hnew ▸ hlayer⟩]

/-- A registered class is what its place is looked up as, unless the entry that is there stays. -/
theorem class?_of_registerClass {r' : Registry} {e : ClassEntry} (hr : r.registerClass e = .ok r') (c : ClassName) :
    r'.class? c = if c.place = e.name.place then some (e.over (r.class? c)) else r.class? c := by
  have hat : c.place = e.name.place → r.class? c = r.class? e.name := r.class?_eq_of_place
  rw [registerClass] at hr
  split at hr
  · cases hr
  · next hold hnew =>
    obtain rfl := Except.ok.inj hr
    split
    · next h => rw [hat h, some_over_of_origin hold hnew (by decide)]
    · rfl
  · next hsource hclassPath =>
    obtain rfl := Except.ok.inj hr
    rw [class?_putClass]
    split
    · next h =>
      rw [hat h]
      cases hold : r.class? e.name with
      | none => rfl
      | some old =>
        rw [hold] at hsource hclassPath
        rw [ClassEntry.over, if_neg]
        rintro ⟨horigin, hplatform⟩
        cases hnew : e.origin with
        | source => exact hsource (by simp [horigin, hnew]) hnew
        | classPath => exact hclassPath (by simp [horigin, hnew]) hnew
        | platform => exact hplatform hnew
    · rfl

/-- Only a declaration in sources is refused, where another one is registered. -/
theorem origins_of_refused {e : ClassEntry} {refusal : RegistrationError} (hr : r.registerClass e = .error refusal) :
    (r.class? e.name).map ClassEntry.origin = some .source ∧ e.origin = .source := by
  rw [registerClass] at hr
  split at hr
  · next hold hnew => exact ⟨hold, hnew⟩
  · cases hr
  · cases hr

/-- Declared supertypes do not show in the look-ups. -/
theorem foldl_addSupertype_eq (r : Registry) (sub : ClassName) (supers : List ClassName) :
    supers.foldl (fun r super => r.addSupertype sub super) r =
      { r with hierarchy := supers.foldl (fun h super => h.add sub super) r.hierarchy } := by
  induction supers generalizing r with
  | nil => rfl
  | cons super supers ih => exact ih (r.addSupertype sub super)

theorem class?_registerFile {f : ClassFile} {d : ClassName} (hmodule : f.isModule = false)
    (hd : f.className? = some d) (c : ClassName) :
    (r.registerFile f).2.class? c =
      if c.place = d.place then some (ClassEntry.over ⟨d, kindOf f, .classPath⟩ (r.class? c)) else r.class? c := by
  rw [registerFile]
  split
  · next hnew =>
    -- an earlier class file holds the class
    have hold : (r.class? d).map ClassEntry.origin = some .classPath := by
      simpa [newClass?, hmodule, hd] using hnew
    split
    · next h =>
      rw [r.class?_eq_of_place h, some_over_of_origin hold rfl (by decide)]
    · rfl
  · next d' hnew =>
    obtain rfl : d = d' := by
      rw [newClass?, if_neg (by simp [hmodule]), hd, Option.filter_eq_some_iff] at hnew
      exact Option.some.inj hnew.1
    dsimp only
    rw [foldl_addSupertype_eq]
    split
    · next r' hr => exact class?_of_registerClass hr c
    · next refusal hr => exact absurd (origins_of_refused hr).2 (by simp)

/-- A call that brings no class leaves the classes as they are. -/
theorem class?_call_of_none {call : RegistryCall} (h : call.class? = none) (c : ClassName) :
    (r.call call).2.class? c = r.class? c := by
  cases call with
  | registerClass e => cases h
  | registerFile f =>
    have hnew : r.newClass? f = none := by
      rw [newClass?]
      split
      · rfl
      · next hmodule =>
        rw [RegistryCall.class?, if_neg hmodule, Option.map_eq_none_iff] at h
        rw [h]
        rfl
    show (r.registerFile f).2.class? c = _
    rw [registerFile, hnew]
  | registerAlias a =>
    rw [Registry.call]
    cases hr : r.registerAlias a with
    | ok r' =>
      rw [registerAlias] at hr
      split at hr
      · cases hr
      · obtain rfl := Except.ok.inj hr
        exact r.class?_putAlias a c
    | error refusal => exact r.class?_changePackage_of_classes (fun _ => rfl) _ c
  | linkAlias name target =>
    rw [Registry.call]
    split
    · next r' hr => exact class?_linkAlias? hr c
    · rfl
  | addSupertype sub super => rfl

/-- A class that a call brings is what its place is looked up as behind the call, unless the entry there stays. -/
theorem class?_call_of_some {call : RegistryCall} {e : ClassEntry} (h : call.class? = some e) (c : ClassName) :
    (r.call call).2.class? c = if c.place = e.name.place then some (e.over (r.class? c)) else r.class? c := by
  cases call with
  | registerClass e' =>
    obtain rfl := Option.some.inj h
    cases hr : r.registerClass e' with
    | ok r' =>
      have hcall : (r.call (.registerClass e')).2 = r' := by rw [Registry.call, hr]; rfl
      rw [hcall, class?_of_registerClass hr]
    | error refusal =>
      have hkeep : (r.call (.registerClass e')).2 = r :=
        call_of_refused (c := .registerClass e') (by rw [Registry.call, hr]; rfl)
      obtain ⟨hold, hnew⟩ := origins_of_refused hr
      rw [hkeep]
      split
      · next hplace => rw [r.class?_eq_of_place hplace, some_over_of_origin hold hnew (by decide)]
      · rfl
  | registerFile f =>
    rw [RegistryCall.class?] at h
    split at h
    · cases h
    · next hmodule =>
      obtain ⟨d, hd, rfl⟩ := Option.map_eq_some_iff.mp h
      exact class?_registerFile (by simpa using hmodule) hd c
  | registerAlias a => cases h
  | linkAlias name target => cases h
  | addSupertype sub super => cases h

/-- A registration that brings no type alias leaves the type aliases as they are. -/
theorem alias?_call_of_none {call : RegistryCall} (hcall : call.IsRegistration) (h : call.alias? = none)
    (n : DottedName) : (r.call call).2.alias? n = r.alias? n := by
  have hput : ∀ (r r' : Registry) (e : ClassEntry), r.registerClass e = .ok r' → r'.alias? n = r.alias? n := by
    intro r r' e hr
    rw [registerClass] at hr
    split at hr
    · cases hr
    · exact Except.ok.inj hr ▸ rfl
    · exact Except.ok.inj hr ▸ r.alias?_putClass e n
  cases call with
  | registerClass e =>
    rw [Registry.call]
    cases hr : r.registerClass e with
    | ok r' => exact hput r r' e hr
    | error refusal => exact r.alias?_changePackage_of_aliases (fun _ => rfl) _ n
  | registerFile f =>
    show (r.registerFile f).2.alias? n = _
    rw [registerFile]
    split
    · rfl
    · dsimp only
      rw [foldl_addSupertype_eq]
      split
      · next r' hr => exact (hput _ r' _ hr).trans rfl
      · rfl
  | registerAlias a => cases h
  | linkAlias name target => exact hcall.elim
  | addSupertype sub super => exact hcall.elim

/-- A type alias that a call brings is what its place is looked up as behind the call, unless the entry there
stays. -/
theorem alias?_call_of_some {call : RegistryCall} {a : AliasEntry} (h : call.alias? = some a) (n : DottedName) :
    (r.call call).2.alias? n = if n.place = a.name.place then some (a.over (r.alias? n)) else r.alias? n := by
  cases call with
  | registerAlias a' =>
    obtain rfl := Option.some.inj h
    have hat : n.place = a'.name.place → r.alias? n = r.alias? a'.name := r.alias?_eq_of_place
    cases hr : r.registerAlias a' with
    | ok r' =>
      show (r.registered _ (r.registerAlias a')).2.alias? n = _
      rw [hr]
      rw [registerAlias] at hr
      split at hr
      · cases hr
      · next hsource =>
        obtain rfl := Except.ok.inj hr
        show (r.putAlias a').alias? n = _
        rw [alias?_putAlias]
        split
        · next hplace =>
          rw [hat hplace]
          cases hold : r.alias? a'.name with
          | none => rfl
          | some old =>
            rw [hold] at hsource
            rw [AliasEntry.over, if_neg]
            rintro ⟨horigin, hnew⟩
            exact hsource (by simp [horigin]) hnew
        · rfl
    | error refusal =>
      have hkeep : (r.call (.registerAlias a')).2 = r :=
        call_of_refused (c := .registerAlias a') (by rw [Registry.call, hr]; rfl)
      rw [hkeep]
      split
      · next hplace =>
        rw [registerAlias] at hr
        split at hr
        · next hold hnew =>
          obtain ⟨old, hold, horigin⟩ := Option.map_eq_some_iff.mp hold
          rw [hat hplace, hold, AliasEntry.over, if_pos ⟨horigin, hnew⟩]
        · cases hr
      · rfl
  | registerClass e => cases h
  | registerFile f => cases h
  | linkAlias name target => cases h
  | addSupertype sub super => cases h

/-! ### Entries of the sources -/

/-- What a call keeps exactly if it is good holds behind each of several calls exactly if all of them are good. -/
theorem forall_front_iff {P : Registry → Prop} {good : RegistryCall → Prop} {calls : List RegistryCall} (h : P r)
    (hstep : ∀ r, P r → ∀ call ∈ calls, (P (r.call call).2 ↔ good call)) :
    (∀ front, front <+: calls → P (r.afterCalls front)) ↔ ∀ call ∈ calls, good call := by
  induction calls generalizing r with
  | nil =>
    refine iff_of_true (fun front hfront => ?_) (by simp)
    rw [List.prefix_nil.mp hfront]
    exact h
  | cons call calls ih =>
    have hrest : ∀ r, P r → ∀ call ∈ calls, (P (r.call call).2 ↔ good call) :=
      fun r hr call' hmem => hstep r hr call' (List.mem_cons_of_mem _ hmem)
    constructor
    · intro hfronts
      have hfirst : P (r.call call).2 := hfronts [call] (by simp)
      refine List.forall_mem_cons.mpr ⟨(hstep r h call (List.mem_cons_self ..)).mp hfirst, ?_⟩
      refine (ih hfirst hrest).mp fun front hfront => ?_
      exact hfronts (call :: front) (List.cons_prefix_cons.mpr ⟨rfl, hfront⟩)
    · intro hgood front hfront
      obtain ⟨hcall, hcalls⟩ := List.forall_mem_cons.mp hgood
      have hfirst : P (r.call call).2 := (hstep r h call (List.mem_cons_self ..)).mpr hcall
      cases front with
      | nil => exact h
      | cons call' front =>
        obtain ⟨rfl, hbehind⟩ := List.cons_prefix_cons.mp hfront
        exact (ih hfirst hrest).mpr hcalls front hbehind

/-- A class of the sources is found behind a call exactly if the call does not displace it. -/
theorem class?_call_source_iff {c : ClassName} {e : ClassEntry} (hsource : e.origin = .source)
    (h : r.class? c = some e) (call : RegistryCall) :
    (r.call call).2.class? c = some e ↔ ¬ call.Displaces c := by
  cases hcall : call.class? with
  | none =>
    rw [class?_call_of_none hcall, h]
    simp [RegistryCall.Displaces, hcall]
  | some new =>
    have hdisplaces : call.Displaces c ↔ c.place = new.name.place ∧ new.origin ≠ .source := by
      simp [RegistryCall.Displaces, hcall]
    rw [class?_call_of_some hcall, hdisplaces, h, ClassEntry.over, hsource]
    split
    · next hplace =>
      by_cases hnew : new.origin = .source
      · simp [hnew]
      · have hne : new ≠ e := fun heq => hnew (heq ▸ hsource)
        simp [hplace, hnew, Ne.symm hnew, hne]
    · next hplace => simp [hplace]

theorem alias?_call_source_iff {n : DottedName} {a : AliasEntry} (hsource : a.origin = .source)
    (h : r.alias? n = some a) {call : RegistryCall} (hcall : call.IsRegistration) :
    (r.call call).2.alias? n = some a ↔ ¬ call.DisplacesAlias n := by
  cases hbrings : call.alias? with
  | none =>
    rw [alias?_call_of_none hcall hbrings, h]
    simp [RegistryCall.DisplacesAlias, hbrings]
  | some new =>
    have hdisplaces : call.DisplacesAlias n ↔ n.place = new.name.place ∧ new.origin ≠ .source := by
      simp [RegistryCall.DisplacesAlias, hbrings]
    rw [alias?_call_of_some hbrings, hdisplaces, h, AliasEntry.over]
    split
    · next hplace =>
      by_cases hnew : new.origin = .source
      · simp [hsource, hnew]
      · have hne : new ≠ a := fun heq => hnew (heq ▸ hsource)
        simp [hplace, hnew, hne]
    · next hplace => simp [hplace]

/-! ### Dotted names -/

/-- Whether every class is found at its own place. -/
def ClassesInPlace (r : Registry) : Prop := ∀ c e, r.class? c = some e → c.place = e.name.place

theorem ClassesInPlace.call (h : r.ClassesInPlace) (call : RegistryCall) : (r.call call).2.ClassesInPlace := by
  intro c e he
  cases hcall : call.class? with
  | none => exact h c e (class?_call_of_none hcall c ▸ he)
  | some new =>
    rw [class?_call_of_some hcall] at he
    split at he
    · next hplace =>
      cases hold : r.class? c with
      | none =>
        rw [hold] at he
        exact Option.some.inj he ▸ hplace
      | some old =>
        rw [hold, ClassEntry.over] at he
        split at he
        · exact h c e (Option.some.inj he ▸ hold)
        · exact Option.some.inj he ▸ hplace
    · exact h c e he

theorem classesInPlace_afterCalls (calls : List RegistryCall) : (empty.afterCalls calls).ClassesInPlace := by
  suffices hkeep : ∀ r : Registry, r.ClassesInPlace → (r.afterCalls calls).ClassesInPlace by
    exact hkeep empty fun c e he => absurd (mem_classes_of_class? he) List.not_mem_nil
  induction calls with
  | nil => exact fun _ h => h
  | cons call calls ih => exact fun r h => ih _ (h.call call)

/-- In front of a cut of a name stand those with a longer package. -/
theorem mem_front_of_cuts {n : DottedName} {front behind : List ClassName} {c : ClassName}
    (h : cuts n = front ++ c :: behind) (d : ClassName) :
    d ∈ front ↔ d ∈ cuts n ∧ c.package.size < d.package.size := by
  have hpairwise := pairwise_cuts n
  rw [h, List.pairwise_append, List.pairwise_cons] at hpairwise
  obtain ⟨-, ⟨hbehind, -⟩, hfront⟩ := hpairwise
  rw [h]
  constructor
  · intro hd
    exact ⟨List.mem_append_left _ hd, hfront d hd c (List.mem_cons_self ..)⟩
  · rintro ⟨hd, hlonger⟩
    rcases List.mem_append.mp hd with hd | hd
    · exact hd
    · rcases List.mem_cons.mp hd with rfl | hd
      · omega
      · have hshorter := hbehind d hd
        omega

/-- Cuts of a name with one package are one cut. -/
theorem cut_eq_of_package {n : DottedName} {c d : ClassName} (hc : c ∈ cuts n) (hd : d ∈ cuts n)
    (hpackage : c.package = d.package) : c = d := by
  have hdotted : c.dotted = d.dotted := (mem_cuts.mp hc).1.trans (mem_cuts.mp hd).1.symm
  have hsegments := DottedName.segments_inj.mpr hdotted
  rw [ClassName.segments_dotted, ClassName.segments_dotted, hpackage] at hsegments
  exact ClassName.eq_of_halves hpackage (DottedName.segments_inj.mp (List.append_cancel_left hsegments))

/-- A class of the sources that is found by its dotted name is found behind a call exactly if the call neither
displaces nor hides it. -/
theorem findClass?_call_source_iff (hplaces : r.ClassesInPlace) {n : DottedName} {e : ClassEntry}
    (hsource : e.origin = .source) (h : r.findClass? n = some e) (call : RegistryCall) :
    (r.call call).2.findClass? n = some e ↔ ¬ call.Displaces e.name ∧ ¬ call.Hides n e.name := by
  obtain ⟨longer, c, shorter, hcuts, hc, hlonger⟩ := List.findSome?_eq_some_iff.mp h
  have hmem : c ∈ cuts n := hcuts ▸ List.mem_append_right _ (List.mem_cons_self ..)
  have hplace := hplaces c e hc
  have hpackage : c.package = e.name.package := congrArg Prod.fst hplace
  have hdisplaces : call.Displaces e.name ↔ call.Displaces c := by
    simp only [RegistryCall.Displaces, hplace]
  have hhides : call.Hides n e.name ↔ ∃ d ∈ longer, (r.call call).2.class? d ≠ none := by
    rw [RegistryCall.Hides, ← hpackage]
    constructor
    · rintro ⟨new, hcall, d, hd, hsize, hnew⟩
      refine ⟨d, (mem_front_of_cuts hcuts d).mpr ⟨hd, hsize⟩, ?_⟩
      rw [class?_call_of_some hcall, if_pos hnew]
      exact Option.some_ne_none _
    · rintro ⟨d, hd, hfound⟩
      obtain ⟨hcut, hsize⟩ := (mem_front_of_cuts hcuts d).mp hd
      cases hcall : call.class? with
      | none => exact absurd (hlonger d hd) (class?_call_of_none hcall d ▸ hfound)
      | some new =>
        rw [class?_call_of_some hcall, hlonger d hd] at hfound
        exact ⟨new, rfl, d, hcut, hsize, by_contra fun hne => hfound (if_neg hne)⟩
  rw [hdisplaces, ← class?_call_source_iff hsource hc, hhides]
  constructor
  · intro hfound
    obtain ⟨longer', c', shorter', hcuts', hc', hlonger'⟩ := List.findSome?_eq_some_iff.mp hfound
    have hmem' : c' ∈ cuts n := hcuts' ▸ List.mem_append_right _ (List.mem_cons_self ..)
    have hpackage' : c'.package = e.name.package := congrArg Prod.fst (hplaces.call call c' e hc')
    obtain rfl : c = c' := cut_eq_of_package hmem hmem' (hpackage.trans hpackage'.symm)
    refine ⟨hc', ?_⟩
    rintro ⟨d, hd, hfound⟩
    have hfront := (mem_front_of_cuts hcuts' d).mpr ((mem_front_of_cuts hcuts d).mp hd)
    exact hfound (hlonger' d hfront)
  · rintro ⟨hstays, hnone⟩
    refine List.findSome?_eq_some_iff.mpr ⟨longer, c, shorter, hcuts, hstays, fun d hd => ?_⟩
    exact by_contra fun hne => hnone ⟨d, hd, hne⟩

/-! ### Any number of registrations -/

/-- An entry of the sources is found behind each of several registrations exactly if none of them brings an entry
from elsewhere to its place; and, by its dotted name, if besides none brings a class of that name with a longer
package. -/
theorem source_stays_iff (before calls : List RegistryCall) (hcalls : ∀ call ∈ calls, call.IsRegistration) :
    let r := empty.afterCalls before
    (∀ c e, r.class? c = some e → e.origin = .source →
      ((∀ front, front <+: calls → (r.afterCalls front).class? c = some e) ↔
        ∀ call ∈ calls, ¬ call.Displaces c)) ∧
    (∀ n e, r.findClass? n = some e → e.origin = .source →
      ((∀ front, front <+: calls → (r.afterCalls front).findClass? n = some e) ↔
        ∀ call ∈ calls, ¬ call.Displaces e.name ∧ ¬ call.Hides n e.name)) ∧
    (∀ n a, r.alias? n = some a → a.origin = .source →
      ((∀ front, front <+: calls → (r.afterCalls front).alias? n = some a) ↔
        ∀ call ∈ calls, ¬ call.DisplacesAlias n)) := by
  intro r
  refine ⟨fun c e he hsource => ?_, fun n e he hsource => ?_, fun n a ha hsource => ?_⟩
  · exact forall_front_iff (P := fun r => r.class? c = some e) he fun r' hr' call _ =>
      class?_call_source_iff hsource hr' call
  · have hplaces : r.ClassesInPlace := classesInPlace_afterCalls before
    have hkeep := forall_front_iff (P := fun r => r.ClassesInPlace ∧ r.findClass? n = some e) ⟨hplaces, he⟩
      fun r' hr' (call : RegistryCall) (_ : call ∈ calls) =>
        (and_iff_right (hr'.1.call call)).trans (findClass?_call_source_iff hr'.1 hsource hr'.2 call)
    rw [← hkeep]
    refine forall_congr' fun front => imp_congr_right fun _ => ?_
    have hfront : (r.afterCalls front).ClassesInPlace := by
      have happend : r.afterCalls front = empty.afterCalls (before ++ front) := List.foldl_append.symm
      exact happend ▸ classesInPlace_afterCalls _
    exact (and_iff_right hfront).symm
  · exact forall_front_iff (P := fun r => r.alias? n = some a) ha fun r' hr' call hcall =>
      alias?_call_source_iff hsource hr' (hcalls call hcall)

end Registry

/-! ### A class path behind the sources -/

namespace LateClassPath

/-- A class that is declared in sources, and a type alias. -/
def declarations : List RegistryCall :=
  [.registerClass ⟨⟨⟨["a"]⟩, ⟨["Impl"]⟩⟩, .class, .source⟩, .registerAlias ⟨⟨["a", "Name"]⟩, none, .source⟩]

/-- A class file of another class, a second declaration of the class, and a type alias of the platform. -/
def later : List RegistryCall :=
  [.registerFile ⟨0, "a/Other", none, [], [], []⟩, .registerClass ⟨⟨⟨["a"]⟩, ⟨["Impl"]⟩⟩, .interface, .source⟩,
    .registerAlias ⟨⟨["a", "Name"]⟩, none, .platform⟩]

/-- The class stays and the type alias does not. -/
theorem class_stays_and_alias_goes :
    (∀ call ∈ later, call.IsRegistration) ∧
      (∀ front, front <+: later →
        ((Registry.empty.afterCalls declarations).afterCalls front).class? ⟨⟨["a"]⟩, ⟨["Impl"]⟩⟩ =
          some ⟨⟨⟨["a"]⟩, ⟨["Impl"]⟩⟩, .class, .source⟩) ∧
      ¬ ∀ front, front <+: later →
        ((Registry.empty.afterCalls declarations).afterCalls front).alias? ⟨["a", "Name"]⟩ =
          some ⟨⟨["a", "Name"]⟩, none, .source⟩ := by
  have hcalls : ∀ call ∈ later, call.IsRegistration := by simp [later, RegistryCall.IsRegistration]
  have hfile : ClassFile.className? ⟨0, "a/Other", none, [], [], []⟩ = some ⟨⟨["a"]⟩, ⟨["Other"]⟩⟩ := by decide
  obtain ⟨hclass, -, halias⟩ := Registry.source_stays_iff declarations later hcalls
  refine ⟨hcalls, (hclass _ _ (by decide) rfl).mpr ?_, fun hstays => ?_⟩
  · have hplace : ClassName.place ⟨⟨["a"]⟩, ⟨["Impl"]⟩⟩ ≠ ClassName.place ⟨⟨["a"]⟩, ⟨["Other"]⟩⟩ := by decide
    simp [later, RegistryCall.Displaces, RegistryCall.class?, hfile, hplace]
  · have hlast : .registerAlias ⟨⟨["a", "Name"]⟩, none, .platform⟩ ∈ later := by simp [later]
    exact (halias _ _ (by decide) rfl).mp hstays _ hlast ⟨_, rfl, rfl, by decide⟩

/-- A class of the sources does not stay where a class of the class path is registered. -/
theorem not_forall_source_stays :
    ¬ ∀ before calls : List RegistryCall, (∀ call ∈ calls, call.IsRegistration) → ∀ c e,
      (Registry.empty.afterCalls before).class? c = some e → e.origin = .source →
        ((Registry.empty.afterCalls before).afterCalls calls).class? c = some e := by
  intro h
  have hstays := h [.registerClass ⟨⟨⟨["a"]⟩, ⟨["Impl"]⟩⟩, .class, .source⟩]
    [.registerClass ⟨⟨⟨["a"]⟩, ⟨["Impl"]⟩⟩, .class, .classPath⟩] (by simp [RegistryCall.IsRegistration])
    ⟨⟨["a"]⟩, ⟨["Impl"]⟩⟩ ⟨⟨⟨["a"]⟩, ⟨["Impl"]⟩⟩, .class, .source⟩ (by decide) rfl
  exact absurd hstays (by decide)

end LateClassPath

end ServiceCatalog
