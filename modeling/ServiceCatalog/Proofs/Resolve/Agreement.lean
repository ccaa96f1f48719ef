import ServiceCatalog.Proofs.Registry.Lookup
import ServiceCatalog.Resolve.Basic

/-!
# What a resolution depends on

A reference is resolved against look-ups, direct supertypes and the header of a file: its name, its package
and its imports.  Nothing else that a registry or a file holds can change the result.

* `resolve_congr`: registries with the same look-ups and the same direct supertypes resolve alike.
* `resolve_header`: the declarations of a file do not matter.
-/

namespace ServiceCatalog

namespace Resolver

/-! ## Look-ups -/

section Lookups

variable {r r' : Registry} (h : r.SameLookups r') (extent extent' : Extent)

include h

theorem isClass_congr : isClass ⟨r, extent⟩ = isClass ⟨r', extent'⟩ := by
  funext n
  rw [isClass, isClass, h.findClass?_eq]

theorem isClassifier_congr : isClassifier ⟨r, extent⟩ = isClassifier ⟨r', extent'⟩ := by
  funext n
  rw [isClassifier, isClassifier, isClass_congr h extent extent', h.alias?_eq]

theorem pick_congr : pick ⟨r, extent⟩ = pick ⟨r', extent'⟩ := by
  funext candidates
  match candidates with
  | [] => rfl
  | [_] => rfl
  | _ :: _ :: _ => simp only [pick, isClassifier_congr h extent extent']

theorem nestedIn_congr : nestedIn ⟨r, extent⟩ = nestedIn ⟨r', extent'⟩ := by
  funext name outer
  simp only [nestedIn, h.class?_eq]

end Lookups

/-! ## Resolution -/

section Alike

variable {r r' : Registry} (h : r.Alike r') (extent : Extent)

include h

theorem inScope_congr (name : String) : inScope ⟨r, extent⟩ name = inScope ⟨r', extent⟩ name := by
  funext scope
  simp only [inScope, nestedIn_congr h.lookups extent extent, h.closure_eq]

theorem lookUp_congr (c : Context) (name : String) :
    lookUp ⟨r, extent⟩ c name = lookUp ⟨r', extent⟩ c name := by
  simp only [lookUp, exactImport, outerImport, samePackage, implicitPackage, enclosingScope, wildcardImport,
    pick_congr h.lookups extent extent, isClass_congr h.lookups extent extent,
    isClassifier_congr h.lookups extent extent, inScope_congr h]

theorem resolveText_congr (c : Context) (text : String) (span : Span) :
    resolveText ⟨r, extent⟩ c text span = resolveText ⟨r', extent⟩ c text span := by
  rw [resolveText, resolveText, lookUp_congr h]

theorem resolveUserType_congr (c : Context) (u : UserType) :
    resolveUserType ⟨r, extent⟩ c u = resolveUserType ⟨r', extent⟩ c u := by
  rw [resolveUserType, resolveUserType, isClass_congr h.lookups extent extent, resolveText_congr h]

theorem resolveElement_congr (c : Context) (e : TypeElement) :
    resolveElement ⟨r, extent⟩ c e = resolveElement ⟨r', extent⟩ c e := by
  fun_induction resolveElement ⟨r, extent⟩ c e with
  | case1 u => rw [resolveElement, resolveUserType_congr h]
  | case2 e ih => rw [resolveElement, ih]
  | case3 span => rw [resolveElement]

theorem resolveType_congr (c : Context) (t : TypeRef) :
    resolveType ⟨r, extent⟩ c t = resolveType ⟨r', extent⟩ c t := by
  rw [resolveType, resolveType, resolveElement_congr h, resolveText_congr h]

/-- Registries with the same look-ups and the same direct supertypes resolve alike. -/
theorem resolve_congr (c : Context) (reference : Reference) :
    resolve ⟨r, extent⟩ c reference = resolve ⟨r', extent⟩ c reference := by
  cases reference with
  | name i => exact resolveText_congr h extent c i.name i.span
  | path p =>
    rw [resolve, resolve, resolvePath, resolvePath, isClass_congr h.lookups extent extent, resolveText_congr h]
  | userType u => exact resolveUserType_congr h extent c u
  | typeRef t => exact resolveType_congr h extent c t
  | nullable e span => exact resolveElement_congr h extent c e
  | annotationUse a => exact resolveType_congr h extent c a.type
  | collection elements span => rfl

end Alike

end Resolver

/-! ## The header of a file -/

/-- The file without its declarations. -/
def SourceFile.header (f : SourceFile) : SourceFile := { f with declarations := [], typeAliases := [] }

namespace Resolver

variable (ρ : Resolver) (f : SourceFile) (scopes : List ClassName)

theorem resolveElement_header (e : TypeElement) :
    ρ.resolveElement ⟨f.header, scopes⟩ e = ρ.resolveElement ⟨f, scopes⟩ e := by
  fun_induction ρ.resolveElement ⟨f, scopes⟩ e with
  | case1 u => rw [resolveElement]; rfl
  | case2 e ih => rw [resolveElement, ih]
  | case3 span => rw [resolveElement]; rfl

theorem resolveType_header (t : TypeRef) :
    ρ.resolveType ⟨f.header, scopes⟩ t = ρ.resolveType ⟨f, scopes⟩ t := by
  rw [resolveType, resolveType, resolveElement_header]
  rfl

/-- The declarations in the file of a reference do not matter. -/
theorem resolve_header (reference : Reference) :
    ρ.resolve ⟨f.header, scopes⟩ reference = ρ.resolve ⟨f, scopes⟩ reference := by
  cases reference with
  | name i => rfl
  | path p => rfl
  | userType u => rfl
  | typeRef t => exact ρ.resolveType_header f scopes t
  | nullable e span => exact ρ.resolveElement_header f scopes e
  | annotationUse a => exact ρ.resolveType_header f scopes a.type
  | collection elements span => rfl

end Resolver

end ServiceCatalog
