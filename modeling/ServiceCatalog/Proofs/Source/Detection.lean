import Mathlib.Data.List.TakeWhile
import Mathlib.Tactic.Tauto
import ServiceCatalog.Source.Scan

/-!
# When an annotation is found

`SourceFile.Denotes` says by what a file shows that a written name is that of an annotation class: the
full name, a rule of the language, an import of the class, or an import of its package together with the
short name of the class.  `SourceFile.names` does not look at the name in the last of these cases, so every
undotted name passes in a file that imports everything in the package.

* `names_iff`: which names pass.
* `find?_eq_first_denoting_iff`: the annotation that is found is the first one whose name denotes the
  class, exactly if no other name passes in front of it and its own name passes.
* `find?_takes_other_name`: an annotation of another name that is found.
-/

namespace ServiceCatalog

namespace SourceFile

variable (f : SourceFile) (wanted : DottedName)

/-- Whether the file imports everything in a package. -/
def ImportsAllOf (package : DottedName) : Prop :=
  ∃ i ∈ f.imports, i.isWildcard = true ∧ i.target = package

/-- Whether the file imports a class alone and thereby introduces a name for it: the alias of the import
or, without an alias, the short name of the class. -/
def ImportsAs (written : String) : Prop :=
  ∃ i ∈ f.imports, i.isWildcard = false ∧ i.target = wanted ∧
    (i.localName.map Ident.name).getD wanted.shortName = written

/-- Whether a name written in a file is that of a class by its full name, by a rule of the language or by
an import of the class alone. -/
def DenotesAlone (written : String) : Prop :=
  written = wanted.text ∨
  (wanted.text ∈ visibleEverywhere ∧ written = wanted.shortName) ∨
  ('.' ∉ written.toList ∧ f.ImportsAs wanted written)

/-- Whether a file shows that a name written in it is that of a class. -/
def Denotes (written : String) : Prop :=
  f.DenotesAlone wanted written ∨ (written = wanted.shortName ∧ f.ImportsAllOf wanted.parent)

instance (package : DottedName) : Decidable (f.ImportsAllOf package) :=
  inferInstanceAs (Decidable (∃ i ∈ f.imports, i.isWildcard = true ∧ i.target = package))

instance (written : String) : Decidable (f.ImportsAs wanted written) :=
  inferInstanceAs (Decidable (∃ i ∈ f.imports, i.isWildcard = false ∧ i.target = wanted ∧
    (i.localName.map Ident.name).getD wanted.shortName = written))

instance (written : String) : Decidable (f.DenotesAlone wanted written) :=
  inferInstanceAs (Decidable (_ ∨ _ ∨ _))

instance (written : String) : Decidable (f.Denotes wanted written) :=
  inferInstanceAs (Decidable (_ ∨ _))

variable {f wanted}

/-- An import of a class introduces its alias or the short name of the class. -/
theorem introduced?_of_target {i : Import} (hi : i.isWildcard = false) (ht : i.target = wanted) :
    i.introduced? = some ((i.localName.map Ident.name).getD wanted.shortName) := by
  have hshort : i.path.shortName = wanted.shortName := by rw [← ht]; rfl
  cases hl : i.localName with
  | none => simp [Import.introduced?, hi, hl, hshort]
  | some name => simp [Import.introduced?, hi, hl]

/-- The imports that admit a name import everything in the package of the class, or introduce the name. -/
theorem any_admits_iff (written : String) :
    (f.imports.any fun i => i.admits wanted written) = true ↔
      f.ImportsAllOf wanted.parent ∨ f.ImportsAs wanted written := by
  rw [List.any_eq_true]
  constructor
  · rintro ⟨i, hi, hadmits⟩
    cases hw : i.isWildcard with
    | true => exact Or.inl ⟨i, hi, hw, by simpa [Import.admits, hw] using hadmits⟩
    | false =>
      obtain ⟨ht, hname⟩ : i.target = wanted ∧ i.introduced? = some written := by
        simpa [Import.admits, hw] using hadmits
      rw [introduced?_of_target hw ht] at hname
      exact Or.inr ⟨i, hi, hw, ht, Option.some.inj hname⟩
  · rintro (⟨i, hi, hw, ht⟩ | ⟨i, hi, hw, ht, hname⟩)
    · exact ⟨i, hi, by simp [Import.admits, hw, ht]⟩
    · exact ⟨i, hi, by simp [Import.admits, hw, ht, introduced?_of_target hw ht, hname]⟩

/-- The names that pass are those that denote the class by themselves and, with an import of everything in its
package, all undotted ones. -/
theorem names_iff (written : String) :
    f.names wanted written = true ↔ written ≠ "" ∧
      (f.DenotesAlone wanted written ∨ '.' ∉ written.toList ∧ f.ImportsAllOf wanted.parent) := by
  have hnames : f.names wanted written = true ↔ written ≠ "" ∧ (written = wanted.text ∨
      (wanted.text ∈ visibleEverywhere ∧ written = wanted.shortName) ∨
      ('.' ∉ written.toList ∧ (f.ImportsAllOf wanted.parent ∨ f.ImportsAs wanted written))) := by
    rw [← any_admits_iff]
    simp [names, or_assoc]
  rw [hnames, DenotesAlone]
  tauto

/-- A name that does not denote the class passes if it is an undotted one and everything in the package of the
class is imported. -/
theorem names_iff_of_not_denotes {written : String} (h : ¬ f.Denotes wanted written) :
    f.names wanted written = false ↔
      written = "" ∨ '.' ∈ written.toList ∨ ¬ f.ImportsAllOf wanted.parent := by
  have halone : ¬ f.DenotesAlone wanted written := fun h' => h (.inl h')
  rw [← Bool.not_eq_true, names_iff]
  tauto

/-- A name that denotes the class passes unless it is empty, or dotted and no more than a short name. -/
theorem names_iff_of_denotes {written : String} (h : f.Denotes wanted written) :
    f.names wanted written = true ↔
      written ≠ "" ∧ ('.' ∈ written.toList → f.DenotesAlone wanted written) := by
  rw [names_iff]
  refine and_congr_right fun _ => ⟨?_, fun hdot => ?_⟩
  · rintro (halone | ⟨hdot, -⟩)
    · exact fun _ => halone
    · exact fun hdot' => absurd hdot' hdot
  · rcases h with halone | ⟨-, hall⟩
    · exact .inl halone
    · by_cases hw : '.' ∈ written.toList
      · exact .inl (hdot hw)
      · exact .inr ⟨hw, hall⟩

/-- A condition picks the first element of another one exactly if it fails in front of that element and holds
there. -/
theorem find?_eq_find?_iff {α : Type} (p q : α → Bool) (l : List α) :
    l.find? p = l.find? q ↔
      (∀ a ∈ l.takeWhile fun a => !q a, p a = false) ∧ ∀ a, l.find? q = some a → p a = true := by
  induction l with
  | nil => simp
  | cons a l ih =>
    cases hq : q a with
    | true =>
      rw [List.find?_cons_of_pos hq, List.takeWhile_cons_of_neg (by simp [hq])]
      cases hp : p a with
      | true => simp [hp]
      | false =>
        have hne : l.find? p ≠ some a := fun h => by simp [List.find?_some h] at hp
        simpa [hp] using hne
    | false =>
      have hneg : ¬ q a = true := by simp [hq]
      rw [List.find?_cons_of_neg hneg, List.takeWhile_cons_of_pos (by simp [hq]), List.forall_mem_cons,
        and_assoc, ← ih]
      cases hp : p a with
      | false => simp [hp]
      | true =>
        have hne : l.find? q ≠ some a := fun h => by simp [List.find?_some h] at hq
        simpa [hp] using hne.symm

/-- The annotation that is found is the first one whose name denotes the class, exactly if every name in front
of it is empty or dotted or everything in the package of the class is not imported, and its own name is not
empty, nor dotted and denoting the class as its short name only. -/
theorem find?_eq_first_denoting_iff (f : SourceFile) (wanted : DottedName)
    (annotations : List AnnotationUse) :
    f.find? annotations wanted = annotations.find? (fun a => f.Denotes wanted a.writtenName) ↔
      (∀ a ∈ annotations.takeWhile (fun a => ¬ f.Denotes wanted a.writtenName),
        a.writtenName = "" ∨ '.' ∈ a.writtenName.toList ∨ ¬ f.ImportsAllOf wanted.parent) ∧
      ∀ a, annotations.find? (fun a => f.Denotes wanted a.writtenName) = some a →
        a.writtenName ≠ "" ∧ ('.' ∈ a.writtenName.toList → f.DenotesAlone wanted a.writtenName) := by
  rw [find?, find?_eq_find?_iff]
  simp only [← decide_not]
  refine and_congr (forall₂_congr fun a ha => ?_) (forall₂_congr fun a ha => ?_)
  · have hnot : ¬ f.Denotes wanted a.writtenName := by simpa using List.mem_takeWhile_imp ha
    exact names_iff_of_not_denotes hnot
  · have hdenotes : f.Denotes wanted a.writtenName := by simpa using List.find?_some ha
    exact names_iff_of_denotes hdenotes

end SourceFile

/-! ## An annotation of another name -/

namespace WildcardImport

/-- An annotation without arguments that is written with a simple name. -/
def use (name : String) : AnnotationUse :=
  ⟨none, ⟨.user ⟨[], ⟨⟨name, default⟩, [], default⟩⟩, [], name, default⟩, [], default⟩

/-- A file that imports everything in the package of the registering annotation. -/
def file : SourceFile :=
  ⟨"T.kt", [], none, [⟨⟨autoService.parent.segments.map (⟨·, default⟩), default⟩, true, none, default⟩],
    [], [], default⟩

/-- An annotation of another name is found, though its name does not denote the registering one. -/
theorem find?_takes_other_name :
    file.find? [use "Other"] autoService = some (use "Other") ∧
      [use "Other"].find? (fun a => file.Denotes autoService a.writtenName) = none := by
  constructor
  · rw [SourceFile.find?]
    rfl
  · decide

end WildcardImport

end ServiceCatalog
