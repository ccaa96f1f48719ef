/-!
# Tables

A finite map from texts to values, kept in the order in which the keys came.  `find?` is the view of a
table: every operation is described by what it does to it.
-/

namespace ServiceCatalog

/-- A finite map from texts. -/
structure Table (α : Type) where
  entries : List (String × α)
  deriving Repr

namespace Table

variable {α : Type}

/-- The table without entries. -/
def empty : Table α := ⟨[]⟩

instance : Inhabited (Table α) := ⟨empty⟩

/-- The value of a key. -/
def find? (t : Table α) (key : String) : Option α :=
  (t.entries.find? fun e => e.1 = key).map Prod.snd

/-- The values, in the order of their keys. -/
def values (t : Table α) : List α := t.entries.map Prod.snd

/-- The entries with the value of a key replaced, or with a new entry behind them. -/
def insertInto (key : String) (a : α) : List (String × α) → List (String × α)
  | [] => [(key, a)]
  | e :: es => if e.1 = key then (key, a) :: es else e :: insertInto key a es

/-- The table in which a key has a given value. -/
def insert (t : Table α) (key : String) (a : α) : Table α := ⟨insertInto key a t.entries⟩

@[simp] theorem find?_empty (key : String) : (empty : Table α).find? key = none := rfl

theorem find?_insert (t : Table α) (key k : String) (a : α) :
    (t.insert key a).find? k = if k = key then some a else t.find? k := by
  obtain ⟨entries⟩ := t
  simp only [find?, insert]
  induction entries with
  | nil => by_cases h : key = k <;> simp [insertInto, h, eq_comm]
  | cons e es ih =>
    by_cases he : e.1 = key
    · by_cases h : key = k
      · simp [insertInto, he, h]
      · simp [insertInto, he, h, Ne.symm h]
    · by_cases h : e.1 = k
      · simp [insertInto, h, show k ≠ key from fun hk => he (h.trans hk)]
      · simpa [insertInto, he, h, List.find?_cons] using ih

end Table

end ServiceCatalog
