import Mathlib.Logic.Relation
import ServiceCatalog.Source.Placed
import ServiceCatalog.Source.Registration

/-!
# The two lists of declarations

The declarations of a file are listed twice: `placed` goes through them level by level and looks for
annotations, `declared` takes each before those nested in it and names the classes to register.  Both list
what the declarations at the top enclose at any depth, so they agree.

* `Placed.mem_levels_iff`: the declarations of a forest are those that its top encloses.
* `SourceFile.mem_declared_iff`: the classes of a file are its declarations in their place, each under the
  name that its place gives it, with the classes around it innermost first.
-/

namespace ServiceCatalog

open Relation

/-- The classes around a nested class are the one it is nested in and those around that. -/
theorem ClassName.outers_nested {c : ClassName} (hc : c.relative.segments ≠ []) (n : String) :
    (c.nested n).outers = c :: c.outers := by
  obtain ⟨package, ⟨segments⟩⟩ := c
  have hpos : 0 < segments.length := List.length_pos_iff.mpr hc
  have hsize : (segments ++ [n]).length - 1 = (segments.length - 1) + 1 := by
    rw [List.length_append, List.length_singleton]
    omega
  have hlast : (segments ++ [n]).take (segments.length - 1 + 1) = segments := by
    rw [Nat.sub_add_cancel hpos, List.take_left]
  have hfront : ∀ i ∈ (List.range (segments.length - 1)).reverse,
      (⟨package, ⟨(segments ++ [n]).take (i + 1)⟩⟩ : ClassName) = ⟨package, ⟨segments.take (i + 1)⟩⟩ := by
    intro i hi
    have hi : i < segments.length - 1 := by simpa using hi
    rw [List.take_append_of_le_length (by omega)]
  simp only [outers, nested, DottedName.child, DottedName.size, hsize, List.range_succ, List.reverse_append,
    List.reverse_singleton, List.singleton_append, List.map_cons, hlast, List.map_congr_left hfront]

namespace Placed

/-- Whether a declaration is directly inside another one. -/
def Encloses (q p : Placed) : Prop := p ∈ q.inner

/-- The declarations of a forest are those that its top encloses at any depth. -/
theorem mem_levels_iff {level : List Placed} {p : Placed} :
    p ∈ levels level ↔ ∃ q ∈ level, ReflTransGen Encloses q p := by
  fun_induction levels level with
  | case1 => simp
  | case2 q₀ qs ih =>
    rw [List.mem_append, ih]
    constructor
    · rintro (hp | ⟨q', hq', hreach⟩)
      · exact ⟨p, hp, .refl⟩
      · obtain ⟨q, hq, hin⟩ := List.mem_flatMap.mp hq'
        exact ⟨q, hq, .head hin hreach⟩
    · rintro ⟨q, hq, hreach⟩
      rcases hreach.cases_head with rfl | ⟨q', hin, hreach⟩
      · exact .inl hq
      · exact .inr ⟨q', List.mem_flatMap.mpr ⟨q, hq, hin⟩, hreach⟩

theorem segments_className_ne_nil (p : Placed) (package : DottedName) :
    (p.className package).relative.segments ≠ [] := by
  show p.path ≠ []
  simp [path]

/-- Inside a declaration names are nested in its own. -/
theorem className_inner (enclosing : List ClassDecl) (d e : ClassDecl) (package : DottedName) :
    className ⟨enclosing ++ [d], e⟩ package = (className ⟨enclosing, d⟩ package).nested e.name.name := by
  simp [className, path, ClassName.nested, DottedName.child]

end Placed

namespace SourceFile

variable {f : SourceFile}

/-- A declaration in its place as a class under its name. -/
def declaredOf (f : SourceFile) (p : Placed) : Declared :=
  ⟨f, p.className f.packageName, (p.className f.packageName).outers, p.decl.kind, p.decl.supertypes⟩

/-- The classes of a forest are what the declarations in it enclose, if names and scopes fit the place of
the forest. -/
theorem mem_declaredIn_iff {nameOf : String → ClassName} {scopes : List ClassName} {ds : List ClassDecl}
    {enclosing : List ClassDecl}
    (hname : ∀ x, nameOf x.name.name = Placed.className ⟨enclosing, x⟩ f.packageName)
    (hscopes : ∀ x, (Placed.className ⟨enclosing, x⟩ f.packageName).outers = scopes) {d : Declared} :
    d ∈ f.declaredIn nameOf scopes ds ↔
      ∃ x ∈ ds, ∃ p, ReflTransGen Placed.Encloses ⟨enclosing, x⟩ p ∧ f.declaredOf p = d := by
  fun_induction declaredIn f nameOf scopes ds generalizing enclosing with
  | case1 => simp
  | case2 nameOf scopes kind ident annotations supertypes inner span ds name ihInner =>
    rename_i ihRest
    let x : ClassDecl := ⟨kind, ident, annotations, supertypes, inner, span⟩
    have hx : name = Placed.className ⟨enclosing, x⟩ f.packageName := hname x
    have hself : f.declaredOf ⟨enclosing, x⟩ = ⟨f, name, scopes, kind, supertypes⟩ := by
      rw [declaredOf, hscopes, ← hx]
    have hinner := @ihInner (enclosing ++ [x])
      (fun y => by rw [Placed.className_inner, hx])
      (fun y => by
        rw [Placed.className_inner, ClassName.outers_nested (Placed.segments_className_ne_nil _ _), hscopes,
          hx])
    rw [List.mem_cons, List.mem_append, hinner, ihRest hname hscopes]
    constructor
    · rintro (rfl | ⟨y, hy, p, hreach, hp⟩ | ⟨y, hy, hp⟩)
      · exact ⟨x, List.mem_cons_self .., _, .refl, hself⟩
      · exact ⟨x, List.mem_cons_self .., p, .head (List.mem_map.mpr ⟨y, hy, rfl⟩) hreach, hp⟩
      · exact ⟨y, List.mem_cons_of_mem _ hy, hp⟩
    · rintro ⟨y, hy, p, hreach, rfl⟩
      rcases List.mem_cons.mp hy with rfl | hy
      · rcases hreach.cases_head with rfl | ⟨q, hin, hreach⟩
        · exact .inl hself
        · obtain ⟨z, hz, rfl⟩ := List.mem_map.mp hin
          exact .inr (.inl ⟨z, hz, p, hreach, rfl⟩)
      · exact .inr (.inr ⟨y, hy, p, hreach, rfl⟩)

/-- The classes of a file are its declarations in their place. -/
theorem mem_declared_iff {d : Declared} : d ∈ f.declared ↔ ∃ p ∈ f.placed, f.declaredOf p = d := by
  have htop : d ∈ f.declared ↔
      ∃ x ∈ f.declarations, ∃ p, ReflTransGen Placed.Encloses ⟨[], x⟩ p ∧ f.declaredOf p = d :=
    mem_declaredIn_iff (fun _ => rfl) (fun _ => rfl)
  rw [htop]
  simp only [placed, Placed.mem_levels_iff]
  constructor
  · rintro ⟨x, hx, p, hreach, hp⟩
    exact ⟨p, ⟨.top x, List.mem_map_of_mem hx, hreach⟩, hp⟩
  · rintro ⟨p, ⟨q, hq, hreach⟩, hp⟩
    obtain ⟨x, hx, rfl⟩ := List.mem_map.mp hq
    exact ⟨x, hx, p, hreach, hp⟩

end SourceFile

end ServiceCatalog
