import Mathlib
import ServiceCatalog.Proofs.Resolve.Agreement
import ServiceCatalog.Proofs.Source.Linking

/-!
# Linked supertypes in the final registry

A supertype is linked by what is known in its round, and an annotation argument is resolved by what is known
in the end.  The two agree on everything but one place of a look-up: the classes around it.  A round sees a
part of the supertypes of these classes, the first one none at all, so a class that one of them inherits may
take the place of the class that was linked.

* `Resolver.Precedes`: a resolver that sees the same packages and a part of the supertypes.
* `Resolver.resolveType_eq_or_inherits`: where a type is resolved differently, an inherited class was found.
* `Registry.linkTrace_agrees`: this for every link that linking makes.
-/

namespace ServiceCatalog

/-- The texts by which a type is looked up: the path of its name, then the text of its tokens. -/
def TypeRef.readings (t : TypeRef) : List String := (t.userType?.map UserType.pathText).toList ++ [t.text]

namespace Resolver

/-- Whether a name belongs to a class that is nested, under a given text, in a supertype of a class around
the place. -/
def Inherits (φ : Resolver) (c : Context) (text : String) (n : DottedName) : Prop :=
  ∃ scope ∈ c.scopes, ∃ super ∈ (φ.registry.hierarchy.closure scope).tail, φ.nestedIn text super = some n

/-- What is tried in front of the classes around the place. -/
def front (ρ : Resolver) (c : Context) (text : String) : Option DottedName :=
  (ρ.exactImport c text).or
    ((ρ.outerImport c text).or ((ρ.samePackage c text).or (ρ.implicitPackage text)))

/-- What is tried behind the classes around the place. -/
def behind (ρ : Resolver) (c : Context) (text : String) : Option DottedName :=
  (ρ.wildcardImport c text).or (namedImport c text)

theorem lookUp_eq (ρ : Resolver) (c : Context) (text : String) :
    ρ.lookUp c text = (ρ.front c text).or ((ρ.enclosingScope c text).or (ρ.behind c text)) := by
  simp only [lookUp, front, behind, Option.orElse_eq_orElse, Option.orElse_eq_or, Option.or_assoc]

/-- A resolver with the same packages as a full one, but only a part of the supertypes. -/
structure Precedes (ρ φ : Resolver) : Prop where
  packages_eq : ρ.registry.packages = φ.registry.packages
  edges_subset : ρ.registry.hierarchy.edges ⊆ φ.registry.hierarchy.edges
  extent_eq : φ.extent = .full

namespace Precedes

variable {ρ φ : Resolver} (h : ρ.Precedes φ) (c : Context)

include h

theorem sameLookups : ρ.registry.SameLookups φ.registry := by
  refine ⟨fun c => ?_, fun n => ?_⟩
  · simp only [Registry.class?, Registry.package?, h.packages_eq]
  · simp only [Registry.alias?, Registry.package?, h.packages_eq]

theorem isClass_eq : φ.isClass = ρ.isClass := isClass_congr h.sameLookups.symm φ.extent ρ.extent

theorem isClassifier_eq : φ.isClassifier = ρ.isClassifier :=
  isClassifier_congr h.sameLookups.symm φ.extent ρ.extent

theorem pick_eq : φ.pick = ρ.pick := pick_congr h.sameLookups.symm φ.extent ρ.extent

theorem nestedIn_eq (text : String) (scope : ClassName) : ρ.nestedIn text scope = φ.nestedIn text scope := by
  have hnested : ρ.nestedIn = φ.nestedIn := nestedIn_congr h.sameLookups ρ.extent φ.extent
  rw [hnested]

/-- In one class and its supertypes the two find the same, or the full resolver finds a class that is
inherited. -/
theorem inScope_eq_or_inherits (text : String) (scope : ClassName) :
    φ.inScope text scope = ρ.inScope text scope ∨
      ∃ n, φ.inScope text scope = some n ∧
        ∃ super ∈ (φ.registry.hierarchy.closure scope).tail, φ.nestedIn text super = some n := by
  cases hown : φ.nestedIn text scope with
  | some found =>
    left
    rw [inScope, inScope, h.nestedIn_eq, hown]
  | none =>
    have hfull : φ.inScope text scope =
        (φ.registry.hierarchy.closure scope).tail.findSome? (φ.nestedIn text) := by
      rw [inScope, hown, h.extent_eq]
    cases hfound : (φ.registry.hierarchy.closure scope).tail.findSome? (φ.nestedIn text) with
    | some n =>
      obtain ⟨super, hsuper, hn⟩ := List.exists_of_findSome?_eq_some hfound
      exact .inr ⟨n, hfull.trans hfound, super, hsuper, hn⟩
    | none =>
      left
      have hnone := List.findSome?_eq_none_iff.mp hfound
      -- the supertypes that are seen early are seen in the end
      have hearly : (ρ.registry.hierarchy.closure scope).tail.findSome? (ρ.nestedIn text) = none := by
        refine List.findSome?_eq_none_iff.mpr fun super hsuper => ?_
        have hmem := Hierarchy.mem_closure_mono h.edges_subset (List.mem_of_mem_tail hsuper)
        rw [h.nestedIn_eq]
        rw [Hierarchy.closure_eq_cons] at hmem
        rcases List.mem_cons.mp hmem with rfl | hmem
        · exact hown
        · exact hnone super hmem
      rw [hfull, hfound, inScope, h.nestedIn_eq, hown]
      cases ρ.extent with
      | linking => rfl
      | full => exact hearly.symm

theorem enclosingScope_eq_or_inherits (text : String) :
    φ.enclosingScope c text = ρ.enclosingScope c text ∨
      ∃ n, φ.enclosingScope c text = some n ∧ φ.Inherits c text n := by
  obtain ⟨file, scopes⟩ := c
  simp only [enclosingScope, Inherits]
  induction scopes with
  | nil => exact .inl rfl
  | cons scope scopes ih =>
    rcases h.inScope_eq_or_inherits text scope with heq | ⟨n, hn, super, hsuper, hnested⟩
    · rw [List.findSome?_cons, List.findSome?_cons, heq]
      cases ρ.inScope text scope with
      | some n => exact .inl rfl
      | none =>
        rcases ih with heq | ⟨n, hn, outer, houter, hinherits⟩
        · exact .inl heq
        · exact .inr ⟨n, hn, outer, List.mem_cons_of_mem _ houter, hinherits⟩
    · right
      rw [List.findSome?_cons, hn]
      exact ⟨n, rfl, scope, List.mem_cons_self .., super, hsuper, hnested⟩

theorem front_eq (text : String) : φ.front c text = ρ.front c text := by
  simp only [front, exactImport, outerImport, samePackage, implicitPackage, h.pick_eq, h.isClass_eq,
    h.isClassifier_eq]

theorem behind_eq (text : String) : φ.behind c text = ρ.behind c text := by
  simp only [behind, wildcardImport, h.isClassifier_eq]

/-- A text stands for the same, or for an inherited class that the other resolver does not find in the classes
around the place. -/
theorem lookUp_eq_or_inherits (text : String) :
    φ.lookUp c text = ρ.lookUp c text ∨
      ∃ n, φ.lookUp c text = some n ∧ φ.Inherits c text n ∧ ρ.enclosingScope c text ≠ some n := by
  rw [lookUp_eq, lookUp_eq, h.front_eq, h.behind_eq]
  by_cases heq : φ.enclosingScope c text = ρ.enclosingScope c text
  · left
    rw [heq]
  · obtain ⟨n, hn, hinherits⟩ := (h.enclosingScope_eq_or_inherits c text).resolve_left heq
    have hearly : ρ.enclosingScope c text ≠ some n := fun hn' => heq (hn.trans hn'.symm)
    cases ρ.front c text with
    | some m => exact .inl (by rw [Option.some_or, Option.some_or])
    | none => exact .inr ⟨n, by rw [hn, Option.none_or, Option.some_or], hinherits, hearly⟩

theorem resolveText_eq_or_inherits (text : String) (span : Span) :
    φ.resolveText c text span = ρ.resolveText c text span ∨
      ∃ n, φ.resolveText c text span = .ok n ∧ φ.Inherits c text n ∧ ρ.enclosingScope c text ≠ some n := by
  rw [resolveText, resolveText]
  rcases h.lookUp_eq_or_inherits c text with heq | ⟨n, hn, hinherits⟩
  · rw [heq]
    exact .inl rfl
  · rw [hn]
    exact .inr ⟨n, rfl, hinherits⟩

theorem resolveUserType_eq_or_inherits (u : UserType) :
    φ.resolveUserType c u = ρ.resolveUserType c u ∨
      ∃ n, φ.resolveUserType c u = .ok n ∧ φ.Inherits c u.pathText n ∧
        ρ.enclosingScope c u.pathText ≠ some n := by
  rw [resolveUserType, resolveUserType, h.isClass_eq]
  split
  · exact .inl rfl
  · exact h.resolveText_eq_or_inherits c u.pathText u.span

theorem resolveElement_eq_or_inherits (e : TypeElement) :
    φ.resolveElement c e = ρ.resolveElement c e ∨
      ∃ n, φ.resolveElement c e = .ok n ∧ ∃ u, e.userType? = some u ∧ φ.Inherits c u.pathText n ∧
        ρ.enclosingScope c u.pathText ≠ some n := by
  fun_induction φ.resolveElement c e with
  | case1 u =>
    rw [resolveElement]
    rcases h.resolveUserType_eq_or_inherits c u with heq | ⟨n, hn, hinherits⟩
    · exact .inl heq
    · exact .inr ⟨n, hn, u, rfl, hinherits⟩
  | case2 e ih =>
    rw [resolveElement, TypeElement.userType?]
    exact ih
  | case3 span => exact .inl (by rw [resolveElement])

/-- A type is resolved alike, or what it is resolved to is an inherited class that the other resolver does not
find in the classes around the place. -/
theorem resolveType_eq_or_inherits (t : TypeRef) :
    φ.resolveType c t = ρ.resolveType c t ∨
      ∃ n, φ.resolveType c t = .ok n ∧ ∃ text ∈ t.readings, φ.Inherits c text n ∧
        ρ.enclosingScope c text ≠ some n := by
  rw [resolveType, resolveType]
  rcases h.resolveElement_eq_or_inherits c t.element with heq | ⟨n, hn, u, hu, hinherits⟩
  · rw [heq]
    split
    · have hreading : t.text ∈ t.readings := List.mem_append_right _ (List.mem_singleton.mpr rfl)
      rcases h.resolveText_eq_or_inherits c t.text t.span with heq | ⟨n, hn, hinherits⟩
      · exact .inl heq
      · exact .inr ⟨n, hn, t.text, hreading, hinherits⟩
    · exact .inl rfl
  · rw [hn]
    have hreading : u.pathText ∈ t.readings := by
      rw [TypeRef.readings, TypeRef.userType?, hu]
      exact List.mem_cons_self ..
    exact .inr ⟨n, rfl, u.pathText, hreading, hinherits⟩

end Precedes

end Resolver

/-- Whether a supertype that was linked denotes the same class when it is resolved in full. -/
def Link.Agrees (l : Link) (final : Registry) : Prop :=
  (Resolver.mk final .full).supertype? l.written = some l.target

instance (l : Link) (final : Registry) : Decidable (l.Agrees final) :=
  inferInstanceAs (Decidable (_ = _))

/-- Linking declares the supertypes that it links, and each of them is resolved in the end too: to the class
that was linked, unless what is found then is a class inherited by a class around the place, which the round
that made the link did not find there. -/
theorem Registry.linkTrace_agrees (r : Registry) (pending : Pending) :
    let final := (r.link pending).1
    let resolver : Resolver := ⟨final, .full⟩
    final.hierarchy = r.hierarchy.addAll ((r.linkTrace pending).map Link.edge) ∧
      ∀ l ∈ r.linkTrace pending, l.Fits pending.supertypes final ∧
        (l.Agrees final ∨ ∃ n, resolver.resolve l.context (.typeRef l.written.super) = .ok n ∧
          ∃ text ∈ l.written.super.readings, resolver.Inherits l.context text n ∧
            l.resolver.enclosingScope l.context text ≠ some n) := by
  intro final resolver
  refine ⟨hierarchy_link r pending, fun l hl => ?_⟩
  have hfits := fits_of_mem_linkTrace hl
  have hprecedes : l.resolver.Precedes resolver := ⟨hfits.packages_eq, hfits.edges_subset, rfl⟩
  refine ⟨hfits, (hprecedes.resolveType_eq_or_inherits l.context l.written.super).imp ?_ id⟩
  intro heq
  have hresolve : resolver.resolve l.context (.typeRef l.written.super) =
      l.resolver.resolve l.context (.typeRef l.written.super) := heq
  have hclassifier : resolver.registry.classifier? = l.resolver.registry.classifier? :=
    funext hprecedes.sameLookups.symm.classifier?_eq
  have hsame : resolver.supertype? l.written = l.resolver.supertype? l.written := by
    show (resolver.resolve l.context _).toOption.bind _ = (l.resolver.resolve l.context _).toOption.bind _
    rw [hresolve, hclassifier]
  exact hsame.trans hfits.supertype?_eq

/-! ## A class that is inherited late -/

namespace InheritedLate

/-- A type that is written with a simple name. -/
def typeNamed (name : String) : TypeRef := ⟨.user ⟨[], ⟨⟨name, default⟩, [], default⟩⟩, [], name, default⟩

/-- A class with its supertypes and the classes inside it. -/
def decl (name : String) (supertypes : List TypeRef) (inner : List ClassDecl) : ClassDecl :=
  ⟨.class, ⟨name, default⟩, [], supertypes, inner, default⟩

/-- A file in which `Item` extends an `Entry` that stands around it, and that the class around it inherits. -/
def file : SourceFile :=
  ⟨"T.kt", [], none, [],
    [decl "Base" [] [decl "Entry" [] []],
      decl "Outer" []
        [decl "Entry" [] [], decl "Inner" [typeNamed "Base"] [decl "Item" [typeNamed "Entry"] []]]],
    [], default⟩

/-- The registry with the classes of the file, before linking. -/
def registered : Registry := (Registry.empty.registerSources [file]).toOption.getD .empty

/-- The supertype of `Item` is linked in the first round, which sees no supertypes, to one `Entry`, and in the
end it denotes the other. -/
theorem exists_link_not_agrees :
    Registry.empty.registerSources [file] = .ok registered ∧
      ∃ l ∈ registered.linkTrace (.ofSources [file]), ¬ l.Agrees (registered.link (.ofSources [file])).1 := by
  constructor
  · cbv
  · have hany : (registered.linkTrace (.ofSources [file])).any (fun l =>
        (Resolver.mk (registered.link (.ofSources [file])).1 .full).supertype? l.written ≠ some l.target) := by
      cbv
    obtain ⟨l, hl, hne⟩ := List.any_eq_true.mp hany
    exact ⟨l, hl, of_decide_eq_true hne⟩

end InheritedLate

end ServiceCatalog
