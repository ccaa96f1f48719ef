import ServiceCatalog.Proofs.Chain
import ServiceCatalog.Providers.FromSources

/-!
# What annotation arguments mention

An argument that registers providers is a class literal, or a collection of such arguments, nested at any
depth.  The extraction of references accepts exactly these and finds every class literal in them.

* `Expr.IsLiterals`, `Expr.HasLiteral`: the arguments that are accepted, and what they mention.
* `references_spec`: the extraction yields what is mentioned, or the argument is not of this kind.
* `Scanned.allReferences_spec`: the same for the whole annotation of a declaration.
-/

namespace ServiceCatalog

namespace Expr

/-- A class literal, or a collection of arguments of this kind. -/
inductive IsLiterals : Expr → Prop where
  | name (i : Ident) (span : Span) : IsLiterals (.classLiteral (.name i) span)
  | path (p : Path) (span : Span) : IsLiterals (.classLiteral (.path p) span)
  | type (t : TypeRef) (span : Span) : IsLiterals (.classLiteral (.type t) span)
  | collection {elements : List Expr} (span : Span) (h : ∀ e ∈ elements, IsLiterals e) :
    IsLiterals (.collection elements span)

/-- A class literal and what stands before its `::class`, at any depth of collections. -/
inductive HasLiteral : Expr → Reference → Prop where
  | name (i : Ident) (span : Span) : HasLiteral (.classLiteral (.name i) span) (.name i)
  | path (p : Path) (span : Span) : HasLiteral (.classLiteral (.path p) span) (.path p)
  | type (t : TypeRef) (span : Span) : HasLiteral (.classLiteral (.type t) span) (.typeRef t)
  | collection {elements : List Expr} (span : Span) {e : Expr} {reference : Reference} (he : e ∈ elements)
    (h : HasLiteral e reference) : HasLiteral (.collection elements span) reference

theorem isLiterals_collection {elements : List Expr} {span : Span} :
    (collection elements span).IsLiterals ↔ ∀ e ∈ elements, e.IsLiterals :=
  ⟨fun h => by cases h; assumption, .collection span⟩

theorem hasLiteral_collection {elements : List Expr} {span : Span} {reference : Reference} :
    (collection elements span).HasLiteral reference ↔ ∃ e ∈ elements, e.HasLiteral reference := by
  constructor
  · rintro (_ | _ | _ | ⟨-, he, h⟩)
    exact ⟨_, he, h⟩
  · rintro ⟨e, he, h⟩
    exact .collection span he h

end Expr

mutual

/-- The references of an argument are what it mentions; without any it is not of the accepted kind. -/
theorem references_spec (e : Expr) :
    match references e with
    | .ok found => e.IsLiterals ∧ ∀ reference, reference ∈ found ↔ e.HasLiteral reference
    | .error _ => ¬ e.IsLiterals := by
  match e with
  | .collection elements span =>
    have h := referencesOfAll_spec elements
    simpa only [references, Expr.isLiterals_collection, Expr.hasLiteral_collection] using h
  | .classLiteral (.name i) span =>
    refine ⟨.name i span, fun reference => ?_⟩
    rw [List.mem_singleton]
    exact ⟨fun h => h ▸ .name i span, fun h => by cases h; rfl⟩
  | .classLiteral (.path p) span =>
    refine ⟨.path p span, fun reference => ?_⟩
    rw [List.mem_singleton]
    exact ⟨fun h => h ▸ .path p span, fun h => by cases h; rfl⟩
  | .classLiteral (.type t) span =>
    refine ⟨.type t span, fun reference => ?_⟩
    rw [List.mem_singleton]
    exact ⟨fun h => h ▸ .type t span, fun h => by cases h; rfl⟩
  | .classLiteral (.classLiteral _ _) _ | .classLiteral (.collection _ _) _ | .classLiteral (.other _ _) _
  | .name _ | .path _ | .type _ | .other _ _ => exact nofun

/-- The references of several arguments are what they mention. -/
theorem referencesOfAll_spec (es : List Expr) :
    match referencesOfAll es with
    | .ok found =>
      (∀ e ∈ es, e.IsLiterals) ∧ ∀ reference, reference ∈ found ↔ ∃ e ∈ es, e.HasLiteral reference
    | .error _ => ¬ ∀ e ∈ es, e.IsLiterals := by
  match es with
  | [] => exact ⟨by simp, by simp⟩
  | e :: es =>
    have hfirst := references_spec e
    have hothers := referencesOfAll_spec es
    rw [referencesOfAll]
    cases hf : references e with
    | error e' =>
      rw [hf] at hfirst
      exact fun h => hfirst (h e (List.mem_cons_self ..))
    | ok first =>
      rw [hf] at hfirst
      cases ho : referencesOfAll es with
      | error e' =>
        rw [ho] at hothers
        exact fun h => hothers fun e he => h e (List.mem_cons_of_mem _ he)
      | ok others =>
        rw [ho] at hothers
        refine ⟨List.forall_mem_cons.mpr ⟨hfirst.1, hothers.1⟩, fun reference => ?_⟩
        rw [List.mem_append, hfirst.2, hothers.2, List.exists_mem_cons_iff]

end

theorem exists_references_iff {e : Expr} : (∃ found, references e = .ok found) ↔ e.IsLiterals := by
  have h := references_spec e
  cases hr : references e with
  | error e' =>
    rw [hr] at h
    exact ⟨nofun, fun hl => absurd hl h⟩
  | ok found =>
    rw [hr] at h
    exact ⟨fun _ => h.1, fun _ => ⟨found, rfl⟩⟩

theorem mem_references {e : Expr} {found : List Reference} (h : references e = .ok found)
    {reference : Reference} : reference ∈ found ↔ e.HasLiteral reference := by
  have hspec := references_spec e
  rw [h] at hspec
  exact hspec.2 reference

/-- An argument that can register providers: positional or named `value`, not spread, and made of class
literals. -/
structure Argument.IsAccepted (a : Argument) : Prop where
  name_eq : ∀ i, a.name = some i → i.name = "value"
  isSpread_eq : a.isSpread = false
  isLiterals : a.value.IsLiterals

namespace Scanned

variable {s : Scanned}

/-- An annotation that can register providers: it has arguments, and all of them can. -/
structure IsAccepted (s : Scanned) : Prop where
  arguments_ne_nil : s.found.arguments ≠ []
  arguments : ∀ a ∈ s.found.arguments, a.IsAccepted

/-- Whether an annotation mentions a reference in one of its arguments. -/
def Mentions (s : Scanned) (reference : Reference) : Prop :=
  ∃ a ∈ s.found.arguments, a.value.HasLiteral reference

theorem argumentReferences_eq_ok_iff {a : Argument} {found : List Reference} :
    s.argumentReferences a = .ok found ↔
      (∀ i, a.name = some i → i.name = "value") ∧ a.isSpread = false ∧ references a.value = .ok found := by
  rw [argumentReferences]
  cases hname : a.name.filter fun i => i.name ≠ "value" with
  | some i =>
    obtain ⟨hi, hne⟩ := Option.filter_eq_some_iff.mp hname
    have hne : i.name ≠ "value" := by simpa using hne
    exact ⟨nofun, fun h => absurd (h.1 i hi) hne⟩
  | none =>
    have hvalue : ∀ i, a.name = some i → i.name = "value" := by
      intro i hi
      simpa using Option.filter_eq_none_iff.mp hname i hi
    cases hspread : a.isSpread with
    | true => simp
    | false =>
      cases references a.value with
      | error e => simp
      | ok found' => simpa using fun _ => hvalue

theorem exists_argumentReferences_iff {a : Argument} :
    (∃ found, s.argumentReferences a = .ok found) ↔ a.IsAccepted := by
  simp only [argumentReferences_eq_ok_iff, exists_and_left, exists_references_iff]
  exact ⟨fun h => ⟨h.1, h.2.1, h.2.2⟩, fun h => ⟨h.name_eq, h.isSpread_eq, h.isLiterals⟩⟩

theorem allReferences_eq_ok_iff {found : List Reference} :
    s.allReferences = .ok found ↔ s.found.arguments ≠ [] ∧
      ∃ parts, s.found.arguments.mapM s.argumentReferences = .ok parts ∧ parts.flatten = found := by
  rw [allReferences]
  cases s.found.arguments with
  | nil => exact ⟨nofun, fun h => absurd rfl h.1⟩
  | cons a as =>
    show ((a :: as).mapM s.argumentReferences >>= fun parts => .ok parts.flatten) = .ok found ↔ _
    rw [bind_eq_ok_iff, and_iff_right (List.cons_ne_nil a as)]
    simp only [Except.ok.injEq]

/-- References are found exactly in the accepted annotations. -/
theorem exists_allReferences_iff : (∃ found, s.allReferences = .ok found) ↔ s.IsAccepted := by
  have hparts : (∃ found, s.allReferences = .ok found) ↔ s.found.arguments ≠ [] ∧
      ∃ parts, s.found.arguments.mapM s.argumentReferences = .ok parts := by
    simp only [allReferences_eq_ok_iff, exists_and_left]
    exact and_congr_right fun _ => ⟨fun ⟨_, parts, h, _⟩ => ⟨parts, h⟩, fun ⟨parts, h⟩ => ⟨_, parts, h, rfl⟩⟩
  rw [hparts, exists_mapM_eq_ok_iff]
  simp only [exists_argumentReferences_iff]
  exact ⟨fun h => ⟨h.1, h.2⟩, fun h => ⟨h.arguments_ne_nil, h.arguments⟩⟩

/-- The references that are found are those that are mentioned. -/
theorem mem_allReferences {found : List Reference} (h : s.allReferences = .ok found) {reference : Reference} :
    reference ∈ found ↔ s.Mentions reference := by
  obtain ⟨-, parts, hparts, rfl⟩ := allReferences_eq_ok_iff.mp h
  rw [List.mem_flatten, Mentions]
  constructor
  · rintro ⟨part, hpart, hmem⟩
    obtain ⟨a, ha, hfound⟩ := (mem_of_mapM_eq_ok hparts).mp hpart
    obtain ⟨-, -, hreferences⟩ := argumentReferences_eq_ok_iff.mp hfound
    exact ⟨a, ha, (mem_references hreferences).mp hmem⟩
  · rintro ⟨a, ha, hliteral⟩
    obtain ⟨part, hpart⟩ := exists_mapM_eq_ok_iff.mp ⟨parts, hparts⟩ a ha
    obtain ⟨-, -, hreferences⟩ := argumentReferences_eq_ok_iff.mp hpart
    exact ⟨part, (mem_of_mapM_eq_ok hparts).mpr ⟨a, ha, hpart⟩, (mem_references hreferences).mpr hliteral⟩

end Scanned

end ServiceCatalog
