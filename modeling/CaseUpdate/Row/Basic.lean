import CaseUpdate.Ordered
import CaseUpdate.Scalar
import CaseUpdate.Step

namespace CaseUpdate

/-- What a row gives for a column. -/
inductive Change where
  | scalar (s : Scalar)
  | step (s : Step)
  /-- A JSON value: an object to store, or a list that is read as a step when it is used. -/
  | document (v : Json)

namespace Change

def kind : Change → String
  | .scalar s => s.kind
  | .step _ => "increment"
  | .document (.array _) => "array"
  | .document (.object _) => "object"
  | .document _ => "json"

/-- A scalar where the JSON value holds one, a document otherwise. -/
def ofJson (v : Json) : Change :=
  match Scalar.ofJson? v with
  | some s => .scalar s
  | none => .document v

end Change

/-- The changes of one row, by column, in the order in which the columns first came. -/
structure Row where
  entries : List (String × Change)
  nodup : (Ordered.keys entries).Nodup

namespace Row

def empty : Row := ⟨[], by simp⟩

/-- Sets a column: in place where the row has it already, at the end otherwise. -/
def insert (r : Row) (column : String) (c : Change) : Row :=
  ⟨Ordered.put column c r.entries, Ordered.nodup_keys_put r.nodup⟩

def get? (r : Row) (column : String) : Option Change := Ordered.get? column r.entries

theorem get?_insert (r : Row) (column other : String) (c : Change) :
    (r.insert column c).get? other = if column = other then some c else r.get? other :=
  Ordered.get?_put column other c r.entries

def columns (r : Row) : List String := Ordered.keys r.entries

def size (r : Row) : Nat := r.entries.length

def ofList (entries : List (String × Change)) : Row :=
  ⟨Ordered.ofList entries, Ordered.nodup_keys_ofList entries⟩

/-- The row of the members of a JSON object. -/
def ofMembers (members : List (String × Json)) : Row :=
  ofList (members.map fun m => (m.1, Change.ofJson m.2))

def set (r : Row) (column : String) (s : Scalar) : Row := r.insert column (.scalar s)

def increment (r : Row) (column : String) (op : Operator) (x : Operand) : Row :=
  r.insert column (.step ⟨op, x⟩)

def json (r : Row) (column : String) (v : Json) : Row := r.insert column (.ofJson v)

end Row

end CaseUpdate
