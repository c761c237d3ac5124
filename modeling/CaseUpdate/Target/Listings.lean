import CaseUpdate.Ordered
import CaseUpdate.Target.Basic

namespace CaseUpdate

/-- The columns of tables, as far as they have been looked up. -/
structure Listings where
  tables : List (String × List String)

namespace Listings

def empty : Listings := ⟨[]⟩

def get? (c : Listings) (table : String) : Option (List String) := Ordered.get? table c.tables

def insert (c : Listings) (table : String) (columns : List String) : Listings :=
  ⟨Ordered.put table columns c.tables⟩

def invalidate (c : Listings) (table : String) : Listings := ⟨Ordered.erase table c.tables⟩

/-- The columns that are at hand for a table, or none at all. -/
def columnsOf (c : Listings) (table : String) : List String := (c.get? table).getD []

/-- The columns of a table. They are loaded where they are not at hand, and kept unless loading
fails; what is answered is read back from what is kept. -/
def getOrLoad {m : Type → Type} {ε : Type} [Monad m] (c : Listings) (table : String)
    (load : m (Except ε (List String))) : m (Except ε (List String) × Listings) :=
  if (c.get? table).isSome then pure (.ok (c.columnsOf table), c)
  else do
    match ← load with
    | .ok columns =>
      let c := c.insert table columns
      pure (.ok (c.columnsOf table), c)
    | .error e => pure (.error e, c)

/-- A target with the columns that are at hand for its table. -/
def bind (c : Listings) (t : Target) : Option Target := (c.get? t.table).map t.withColumns

end Listings

end CaseUpdate
