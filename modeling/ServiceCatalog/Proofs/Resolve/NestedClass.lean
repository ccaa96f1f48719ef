import ServiceCatalog.Proofs.Registry.Contents
import ServiceCatalog.Resolve.Basic

/-!
# What the name of a nested class denotes

A class that is nested in one around the place of a reference is found by its own halves, its package and its path.
What is kept of it is its dotted name, which is cut again, the longest package first.  So the name denotes the class
that was found, unless another class has the same dotted name and a longer package.

* `Resolver.outers`: the classes in which a name is looked for, in their order.
* `Resolver.enclosingScope_eq`: the look-up in the classes around a place is one search through them.
* `Registry.IsObscured`: a class whose dotted name denotes another one.
* `Resolver.FindsIn`: the nested class that is found, `Resolver.classifier?_of_findsIn`: what the name that is found denotes.
* `PackageOfClassName.not_forall_classifier?_eq`: a package with the dotted name of a class.
-/

namespace ServiceCatalog

namespace Registry

variable {r : Registry} {c : ClassName} {e : ClassEntry}

/-- Whether another class has the dotted name of a class, and a longer package. -/
def IsObscured (r : Registry) (c : ClassName) : Prop :=
  ∃ d ∈ cuts c.dotted, c.package.size < d.package.size ∧ (r.class? d).isSome

/-- The dotted name of a class denotes it, unless it is obscured. -/
theorem findClass?_dotted (hrelative : c.relative ≠ .root) (hc : r.class? c = some e) (hclear : ¬ r.IsObscured c) :
    r.findClass? c.dotted = some e := by
  have hmem : c ∈ cuts c.dotted := mem_cuts.mpr ⟨rfl, hrelative⟩
  obtain ⟨longer, shorter, hsplit⟩ := List.append_of_mem hmem
  refine List.findSome?_eq_some_iff.mpr ⟨longer, c, shorter, hsplit, hc, fun d hd => ?_⟩
  have hpairwise := pairwise_cuts c.dotted
  rw [hsplit] at hpairwise
  have hlonger : c.package.size < d.package.size :=
    (List.pairwise_append.mp hpairwise).2.2 d hd c (List.mem_cons_self ..)
  cases hclass : r.class? d with
  | none => rfl
  | some e' =>
    exact absurd ⟨d, hsplit ▸ List.mem_append_left _ hd, hlonger, Option.isSome_of_eq_some hclass⟩ hclear

/-- The dotted name of an obscured class denotes the class with the longest package. -/
theorem exists_findClass?_of_isObscured (h : r.IsObscured c) :
    ∃ d e', d.dotted = c.dotted ∧ c.package.size < d.package.size ∧ ¬ r.IsObscured d ∧ r.class? d = some e' ∧
      r.findClass? c.dotted = some e' := by
  obtain ⟨d', hd', hlonger', hclass'⟩ := h
  have hsome : (r.findClass? c.dotted).isSome := List.findSome?_isSome_iff.mpr ⟨d', hd', hclass'⟩
  obtain ⟨e', he'⟩ := Option.isSome_iff_exists.mp hsome
  obtain ⟨longer, d, shorter, hsplit, hclass, hlonger⟩ := List.findSome?_eq_some_iff.mp he'
  have hpairwise := pairwise_cuts c.dotted
  rw [hsplit] at hpairwise hd'
  -- a class with a package longer than that of what is found would be among those that were tried before
  have hbound : ∀ b ∈ longer ++ d :: shorter, (r.class? b).isSome → b.package.size ≤ d.package.size := by
    intro b hb hsome
    rcases List.mem_append.mp hb with hb | hb
    · exact absurd hsome (by simp [hlonger b hb])
    · rcases List.mem_cons.mp hb with rfl | hb
      · exact Nat.le_refl _
      · exact Nat.le_of_lt (List.rel_of_pairwise_cons (List.pairwise_append.mp hpairwise).2.1 hb)
  have hdotted : d.dotted = c.dotted := (mem_cuts.mp (hsplit ▸ List.mem_append_right _ (List.mem_cons_self ..))).1
  refine ⟨d, e', hdotted, hlonger'.trans_le (hbound d' hd' hclass'), ?_, hclass, he'⟩
  rintro ⟨b, hb, hsize, hsome⟩
  rw [hdotted, hsplit] at hb
  exact absurd (hbound b hb hsome) (by omega)

end Registry

/-- The class under a dotted text in a class. -/
def ClassName.inner (c : ClassName) (text : String) : ClassName := ⟨c.package, c.relative.join text⟩

/-! ## The classes around a place -/

namespace Resolver

variable (r : Resolver) (c : Context) (name : String)

/-- A class and, if look-ups reach so far, its supertypes. -/
def withSupertypes (scope : ClassName) : List ClassName :=
  match r.extent with
  | .linking => [scope]
  | .full => scope :: (r.registry.hierarchy.closure scope).tail

/-- The classes in which a name is looked for at a place. -/
def outers : List ClassName := c.scopes.flatMap r.withSupertypes

theorem inScope_eq (scope : ClassName) : r.inScope name scope = (r.withSupertypes scope).findSome? (r.nestedIn name) := by
  rw [inScope, withSupertypes]
  cases r.extent <;> cases hscope : r.nestedIn name scope <;> simp [hscope]

/-- A name is looked for in one class after the other. -/
theorem enclosingScope_eq : r.enclosingScope c name = (r.outers c).findSome? (r.nestedIn name) := by
  rw [enclosingScope, outers]
  induction c.scopes with
  | nil => rfl
  | cons scope scopes ih =>
    rw [List.findSome?_cons, List.flatMap_cons, List.findSome?_append, ← ih, ← r.inScope_eq]
    cases r.inScope name scope <;> rfl

/-- Whether a class nested in `outer` is the first one that is found. -/
def FindsIn (outer : ClassName) (e : ClassEntry) : Prop :=
  ∃ before after, r.outers c = before ++ outer :: after ∧ r.registry.class? (outer.inner name) = some e ∧
    ∀ b ∈ before, r.registry.class? (b.inner name) = none

/-- What is found in the classes around a place is the first class nested in one of them. -/
theorem enclosingScope_eq_some_iff {found : DottedName} :
    r.enclosingScope c name = some found ↔
      ∃ outer e, r.FindsIn c name outer e ∧ (outer.inner name).dotted = found := by
  have hnested : ∀ outer, r.nestedIn name outer =
      (r.registry.class? (outer.inner name)).map fun _ => (outer.inner name).dotted := fun outer => rfl
  rw [enclosingScope_eq, List.findSome?_eq_some_iff]
  simp only [hnested, Option.map_eq_some_iff, Option.map_eq_none_iff]
  constructor
  · rintro ⟨before, outer, after, hsplit, ⟨e, he, hfound⟩, hbefore⟩
    exact ⟨outer, e, ⟨before, after, hsplit, he, hbefore⟩, hfound⟩
  · rintro ⟨outer, e, ⟨before, after, hsplit, he, hbefore⟩, hfound⟩
    exact ⟨before, outer, after, hsplit, ⟨e, he, hfound⟩, hbefore⟩

/-! ## What the name denotes -/

/-- The name that is found for a class nested in one around a place denotes this class if it is not obscured, and else
the class with the same dotted name and the longest package. -/
theorem classifier?_of_findsIn (r : Resolver) (c : Context) (name : String) (outer : ClassName) (e : ClassEntry)
    (hrelative : (outer.inner name).relative ≠ .root) (h : r.FindsIn c name outer e) :
    r.enclosingScope c name = some (outer.inner name).dotted ∧
      (¬ r.registry.IsObscured (outer.inner name) →
        r.registry.classifier? (outer.inner name).dotted = some e) ∧
      (r.registry.IsObscured (outer.inner name) →
        ∃ d e', d.dotted = (outer.inner name).dotted ∧ outer.package.size < d.package.size ∧
          ¬ r.registry.IsObscured d ∧ r.registry.class? d = some e' ∧
          r.registry.classifier? (outer.inner name).dotted = some e') ∧
      (r.registry.Kept → (outer.inner name).Plain → e.name = outer.inner name) := by
  have he : r.registry.class? (outer.inner name) = some e := h.choose_spec.choose_spec.2.1
  have hclassifier : ∀ {n e'}, r.registry.findClass? n = some e' → r.registry.classifier? n = some e' := by
    intro n e' he'
    rw [Registry.classifier?, he']
    rfl
  refine ⟨(r.enclosingScope_eq_some_iff c name).mpr ⟨outer, e, h, rfl⟩, fun hclear => ?_, fun hobscured => ?_,
    fun hkept hplain => ((hkept.class?_eq_some_iff hplain).mp he).2⟩
  · exact hclassifier (Registry.findClass?_dotted hrelative he hclear)
  · obtain ⟨d, e', hdotted, hlonger, hclear, hclass, hfind⟩ := Registry.exists_findClass?_of_isObscured hobscured
    exact ⟨d, e', hdotted, hlonger, hclear, hclass, hclassifier hfind⟩

end Resolver

/-! ## A package with the name of a class -/

namespace PackageOfClassName

/-- The class `C` in the class `B` of the package `a`. -/
def nested : ClassEntry := ⟨⟨⟨["a"]⟩, ⟨["B", "C"]⟩⟩, .interface, .source⟩

/-- The class `C` in the package `a.B`. -/
def topLevel : ClassEntry := ⟨⟨⟨["a", "B"]⟩, ⟨["C"]⟩⟩, .interface, .source⟩

/-- A place in the class `B`. -/
def place : Context := ⟨⟨"T.kt", [], none, [], [], [], default⟩, [⟨⟨["a"]⟩, ⟨["B"]⟩⟩]⟩

/-- The class `B` with its nested class. -/
def alone : Registry := Registry.empty.putClass nested

/-- The same classes, and the package `a.B`. -/
def both : Registry := alone.putClass topLevel

theorem findsIn_place {r : Registry} (h : r.class? nested.name = some nested) :
    Resolver.FindsIn ⟨r, .full⟩ place "C" ⟨⟨["a"]⟩, ⟨["B"]⟩⟩ nested :=
  ⟨[], _, List.flatMap_singleton _ _, h, nofun⟩

/-- The name `a.B.C` denotes the nested class, but with the package it denotes the class in there. -/
theorem classifier?_of_findsIn_C :
    (Resolver.enclosingScope ⟨alone, .full⟩ place "C" = some ⟨["a", "B", "C"]⟩ ∧
      alone.classifier? ⟨["a", "B", "C"]⟩ = some nested) ∧
    Resolver.enclosingScope ⟨both, .full⟩ place "C" = some ⟨["a", "B", "C"]⟩ ∧
      both.classifier? ⟨["a", "B", "C"]⟩ = some topLevel := by
  constructor
  · obtain ⟨hscope, hclear, -, -⟩ := Resolver.classifier?_of_findsIn ⟨alone, .full⟩ place "C" ⟨⟨["a"]⟩, ⟨["B"]⟩⟩ nested
      (by decide) (findsIn_place (by decide))
    refine ⟨hscope, hclear ?_⟩
    rintro ⟨d, hd, hlonger, hsome⟩
    revert d
    decide
  · obtain ⟨hscope, -, -, -⟩ := Resolver.classifier?_of_findsIn ⟨both, .full⟩ place "C" ⟨⟨["a"]⟩, ⟨["B"]⟩⟩ nested
      (by decide) (findsIn_place (by decide))
    exact ⟨hscope, by decide⟩

/-- The name that is found for a nested class can denote another class. -/
theorem not_forall_classifier?_eq :
    ¬ ∀ (r : Resolver) (c : Context) (name : String) (outer : ClassName) (e : ClassEntry),
      (outer.inner name).relative ≠ .root → r.FindsIn c name outer e →
      ∀ found, r.enclosingScope c name = some found → r.registry.classifier? found = some e := by
  intro h
  have hnested := h ⟨both, .full⟩ place "C" ⟨⟨["a"]⟩, ⟨["B"]⟩⟩ nested (by decide)
    (findsIn_place (by decide)) ⟨["a", "B", "C"]⟩ (by decide)
  have htopLevel : both.classifier? ⟨["a", "B", "C"]⟩ = some topLevel := by decide
  exact absurd (hnested.symm.trans htopLevel) (by decide)

end PackageOfClassName

end ServiceCatalog
