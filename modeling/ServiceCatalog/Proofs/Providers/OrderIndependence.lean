import ServiceCatalog.Proofs.Providers.Analysis
import ServiceCatalog.Proofs.Source.OrderIndependence

/-!
# The order of sources does not matter for an analysis

Reordered sources register into registries that cannot be told apart, and their scanned declarations differ
in nothing that is looked at.  So they register the same pairs, and a mapping is determined by its pairs.

* `analyze_of_reordered`: a mapping of sources is the mapping of the sources in any other order.
* `analyze_reordered`: neither success nor the mapping depends on the order, and neither do the supertypes of
  a class of the sources.
-/

namespace ServiceCatalog

namespace Scanned.Similar

variable {s s' : Scanned} {r r' : Registry}

theorem className_eq (h : s.Similar s') : s.className = s'.className := by
  show s.place.className s.file.header.packageName = s'.place.className s'.file.header.packageName
  rw [h.header_eq, h.place_eq]

/-- Similar declarations mean the same by a reference. -/
theorem denotes_iff (h : s.Similar s') (halike : r.Alike r') {reference : Reference} {e : ClassEntry} :
    r.Denotes s reference e ↔ r'.Denotes s' reference e := by
  have hresolve : (Resolver.mk r .full).resolve s.context reference =
      (Resolver.mk r' .full).resolve s'.context reference := by
    rw [Scanned.context, Scanned.context, ← Resolver.resolve_header, ← Resolver.resolve_header _ s'.file,
      h.header_eq, Scanned.enclosing, Scanned.enclosing, h.className_eq, Resolver.resolve_congr halike]
  simp only [Registry.Denotes, hresolve, halike.lookups.classifier?_eq]

theorem mentions_iff (h : s.Similar s') {reference : Reference} :
    s.Mentions reference ↔ s'.Mentions reference := by
  rw [Scanned.Mentions, Scanned.Mentions, h.found_eq]

theorem registers (h : s.Similar s') (halike : r.Alike r') (hs : r.Registers s) : r'.Registers s' := by
  refine ⟨⟨?_, ?_⟩, fun reference hmention => ?_⟩
  · exact h.found_eq ▸ hs.isAccepted.arguments_ne_nil
  · exact h.found_eq ▸ hs.isAccepted.arguments
  · obtain ⟨e, he⟩ := hs.denotes reference (h.mentions_iff.mpr hmention)
    exact ⟨e, (h.denotes_iff halike).mp he⟩

theorem hasPair (h : s.Similar s') (halike : r.Alike r') {x : String × String} (hs : r.HasPair s x) :
    r'.HasPair s' x := by
  obtain ⟨reference, e, hmention, he, rfl⟩ := hs
  exact ⟨reference, e, h.mentions_iff.mp hmention, (h.denotes_iff halike).mp he, by rw [h.className_eq]⟩

end Scanned.Similar

variable {sources sources' : List SourceFile}

/-- Reordered sources lead to a registry that cannot be told apart. -/
theorem Registry.withSources_reordered {classPath r : Registry} (h : Reordered sources sources')
    (hr : classPath.withSources sources = .ok r) :
    ∃ r', classPath.withSources sources' = .ok r' ∧ r.Alike r' := by
  obtain ⟨r₀, h₀, rfl⟩ := Registry.withSources_eq_ok_iff.mp hr
  obtain ⟨r₀', h₀', halike⟩ := Registry.registerSources_reordered h h₀
  exact ⟨_, Registry.withSources_eq_ok_iff.mpr ⟨r₀', h₀', rfl⟩, Registry.link_reordered h h₀ halike⟩

/-- A mapping of sources is the mapping of the sources in any other order. -/
theorem analyze_of_reordered (h : Reordered sources sources') {classPath : Registry} {m : ProviderMapping}
    (hm : analyze sources classPath = .ok m) : analyze sources' classPath = .ok m := by
  obtain ⟨r, hr, hm⟩ := analyze_eq_ok_iff.mp hm
  obtain ⟨r', hr', halike⟩ := Registry.withSources_reordered h hr
  have hs : ∀ s ∈ scan autoService sources, r.provider s = .ok s.className :=
    Registry.provider_of_mem_scan hr
  have hs' : ∀ s ∈ scan autoService sources', r'.provider s = .ok s.className :=
    Registry.provider_of_mem_scan hr'
  have hall : ∀ s' ∈ scan autoService sources', r'.Registers s' := by
    intro s' hmem'
    obtain ⟨s, hmem, hsimilar⟩ := h.symm.exists_similar hmem'
    exact hsimilar.symm.registers halike ((Registry.exists_providers_iff hs).mp ⟨m, hm⟩ s hmem)
  obtain ⟨m', hm'⟩ := (Registry.exists_providers_iff hs').mpr hall
  have hpairs : ∀ x, x ∈ m.pairs ↔ x ∈ m'.pairs := by
    intro x
    rw [Registry.mem_pairs_of_providers hs hm, Registry.mem_pairs_of_providers hs' hm']
    constructor
    · rintro ⟨s, hmem, hx⟩
      obtain ⟨s', hmem', hsimilar⟩ := h.exists_similar hmem
      exact ⟨s', hmem', hsimilar.hasPair halike hx⟩
    · rintro ⟨s', hmem', hx⟩
      obtain ⟨s, hmem, hsimilar⟩ := h.symm.exists_similar hmem'
      exact ⟨s, hmem, hsimilar.hasPair halike.symm hx⟩
  have hmm' : m = m' :=
    (Registry.ordered_of_providers hs hm).ext (Registry.ordered_of_providers hs' hm') hpairs
  exact analyze_eq_ok_iff.mpr ⟨r', hr', hmm' ▸ hm'⟩

/-- Whether an analysis succeeds, its mapping if it does, and the supertypes of every class of the sources do
not depend on the order of the sources. -/
theorem analyze_reordered (h : Reordered sources sources') (classPath : Registry) :
    (analyze sources classPath).toOption = (analyze sources' classPath).toOption ∧
      ∀ r, classPath.withSources sources = .ok r → ∃ r', classPath.withSources sources' = .ok r' ∧
        ∀ d ∈ sources.flatMap SourceFile.declared,
          r.hierarchy.closure d.name = r'.hierarchy.closure d.name := by
  constructor
  · cases hm : analyze sources classPath with
    | ok m => rw [analyze_of_reordered h hm]
    | error e =>
      cases hm' : analyze sources' classPath with
      | error e' => rfl
      | ok m' => exact absurd (analyze_of_reordered h.symm hm') (by rw [hm]; exact nofun)
  · intro r hr
    obtain ⟨r', hr', halike⟩ := Registry.withSources_reordered h hr
    exact ⟨r', hr', fun d _ => halike.closure_eq d.name⟩

/-! ## Two files exchanged -/

namespace Exchanged

/-- A class without supertypes. -/
def decl (kind : ClassKind) (name : String) : ClassDecl := ⟨kind, ⟨name, default⟩, [], [], [], default⟩

/-- A file with given declarations. -/
def file (declarations : List ClassDecl) : SourceFile := ⟨"T.kt", [], none, [], declarations, [], default⟩

/-- Two files, the first with two declarations. -/
def before : List SourceFile :=
  [file [decl .interface "Service", decl .class "Provider"], file [decl .class "Other"]]

/-- The files exchanged, and the declarations of the first one too. -/
def after : List SourceFile :=
  [file [decl .class "Other"], file [decl .class "Provider", decl .interface "Service"]]

theorem reordered : Reordered before after := by
  have hfirst : (file [decl .interface "Service", decl .class "Provider"]).Reordered
      (file [decl .class "Provider", decl .interface "Service"]) := ⟨rfl, .swap .., .refl _⟩
  have hsecond : (file [decl .class "Other"]).Reordered (file [decl .class "Other"]) :=
    ⟨rfl, .refl _, .refl _⟩
  exact ⟨_, .cons hfirst (.cons hsecond .nil), .swap ..⟩

theorem analyze_exchanged :
    Reordered before after ∧ (analyze before .empty).toOption = (analyze after .empty).toOption ∧
      ∀ r, Registry.empty.withSources before = .ok r → ∃ r', Registry.empty.withSources after = .ok r' ∧
        ∀ d ∈ before.flatMap SourceFile.declared,
          r.hierarchy.closure d.name = r'.hierarchy.closure d.name :=
  ⟨reordered, analyze_reordered reordered .empty⟩

end Exchanged

end ServiceCatalog
