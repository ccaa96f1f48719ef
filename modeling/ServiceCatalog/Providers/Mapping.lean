/-!
# The mapping of providers

For every interface the classes that provide it, all by their binary names.  Interfaces and the providers
of each are kept in order and without repetition, so two mappings with the same pairs are equal.
-/

namespace ServiceCatalog

/-- The list with a text put in its place, unless it is there already. -/
def insertSorted (s : String) : List String → List String
  | [] => [s]
  | t :: ts =>
    if s < t then s :: t :: ts
    else if s = t then t :: ts
    else t :: insertSorted s ts

/-- Interfaces with their providers. -/
structure ProviderMapping where
  entries : List (String × List String)
  deriving DecidableEq, Repr

namespace ProviderMapping

/-- The mapping without providers. -/
def empty : ProviderMapping := ⟨[]⟩

instance : Inhabited ProviderMapping := ⟨empty⟩

/-- The entries with one more pair. -/
def insertInto (interface provider : String) :
    List (String × List String) → List (String × List String)
  | [] => [(interface, [provider])]
  | e :: es =>
    if interface < e.1 then (interface, [provider]) :: e :: es
    else if interface = e.1 then (e.1, insertSorted provider e.2) :: es
    else e :: insertInto interface provider es

/-- The mapping in which a class provides an interface. -/
def insert (m : ProviderMapping) (interface provider : String) : ProviderMapping :=
  ⟨insertInto interface provider m.entries⟩

/-- The providers of an interface, if it has any. -/
def find? (m : ProviderMapping) (interface : String) : Option (List String) :=
  (m.entries.find? fun e => e.1 = interface).map Prod.snd

/-- Whether a class provides an interface. -/
def provides (m : ProviderMapping) (interface provider : String) : Bool :=
  ((m.find? interface).getD []).contains provider

/-- The interfaces. -/
def interfaces (m : ProviderMapping) : List String := m.entries.map Prod.fst

/-- The pairs of an interface and a provider. -/
def pairs (m : ProviderMapping) : List (String × String) :=
  m.entries.flatMap fun e => e.2.map fun provider => (e.1, provider)

/-- The number of interfaces. -/
def size (m : ProviderMapping) : Nat := m.entries.length

/-- The number of pairs. -/
def pairCount (m : ProviderMapping) : Nat := m.pairs.length

end ProviderMapping

end ServiceCatalog
