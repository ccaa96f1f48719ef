import ServiceCatalog.Resolve.Basic
import ServiceCatalog.Source.Registration

/-!
# Linking sources

After registration the targets of type aliases are resolved, and then the supertypes of classes.

Supertypes are linked in rounds.  A round resolves everything that is left against one registry and then
declares what it found.  The first round does not look at supertypes at all; the later ones do, so a name
that a class inherits from a supertype of a class around it links once that supertype is known.  A round
that finds nothing is the last, and every other round leaves fewer supertypes than there were.
-/

namespace ServiceCatalog

/-- How much linking did. -/
structure LinkCounts where
  aliases : Nat
  supertypes : Nat
  unresolved : Nat
  deriving DecidableEq, Repr

/-- A supertype that is not linked yet, with the class that declares it. -/
structure OpenSupertype where
  sub : Declared
  super : TypeRef

namespace Resolver

/-- The name that an alias target resolves to. -/
def aliasTarget? (r : Resolver) (a : DeclaredAlias) : Option DottedName :=
  (r.resolve ⟨a.file, []⟩ (.typeRef a.target)).toOption

/-- The class that a supertype resolves to. -/
def supertype? (r : Resolver) (o : OpenSupertype) : Option ClassName :=
  (r.resolve ⟨o.sub.file, o.sub.scopes⟩ (.typeRef o.super)).toOption.bind fun name =>
    (r.registry.classifier? name).map ClassEntry.name

/-- Whether a supertype resolves to no class. -/
def leaves (r : Resolver) (o : OpenSupertype) : Bool := (r.supertype? o).isNone

/-- The pairs of classes that a round declares. -/
def edges (r : Resolver) (left : List OpenSupertype) : List (ClassName × ClassName) :=
  left.filterMap fun o => (r.supertype? o).map fun c => (o.sub.name, c)

end Resolver

namespace Registry

/-- Declares several supertypes. -/
def addSupertypes (r : Registry) (edges : List (ClassName × ClassName)) : Registry :=
  edges.foldl (fun r e => r.addSupertype e.1 e.2) r

/-- The registry after a round. -/
def linkRound (r : Registry) (extent : Extent) (left : List OpenSupertype) :
    Registry × List OpenSupertype :=
  let resolver : Resolver := ⟨r, extent⟩
  (r.addSupertypes (resolver.edges left), left.filter resolver.leaves)

theorem length_linkRound_le (r : Registry) (extent : Extent) (left : List OpenSupertype) :
    (r.linkRound extent left).2.length ≤ left.length := List.length_filter_le ..

/-- The registry after rounds until one finds nothing, and what is left then. -/
def linkRounds (r : Registry) (left : List OpenSupertype) : Registry × List OpenSupertype :=
  let next := r.linkRound .full left
  if next.2.length < left.length then next.1.linkRounds next.2 else (r, left)
termination_by left.length

/-- Links supertypes: the registry then, and what is left. -/
def linkSupertypes (r : Registry) (left : List OpenSupertype) : Registry × List OpenSupertype :=
  let first := r.linkRound .linking left
  first.1.linkRounds first.2

/-- Links alias targets: the registry then, and how many were linked. -/
def linkAliases (r : Registry) (targets : List (DottedName × DottedName)) : Registry × Nat :=
  targets.foldl (fun s t =>
    match s.1.linkAlias? t.1 t.2 with
    | some r => (r, s.2 + 1)
    | none => s) (r, 0)

/-- Links what registration left. -/
def link (r : Registry) (pending : Pending) : Registry × LinkCounts :=
  let resolver : Resolver := ⟨r, .linking⟩
  let targets := pending.aliases.filterMap fun a => (resolver.aliasTarget? a).map fun t => (a.name, t)
  let (r, linked) := r.linkAliases targets
  let supertypes := pending.classes.flatMap fun d => d.supertypes.map fun t => ⟨d, t⟩
  let (r, left) := r.linkSupertypes supertypes
  (r, ⟨linked, supertypes.length - left.length, pending.aliases.length - targets.length + left.length⟩)

end Registry

end ServiceCatalog
