import CaseUpdate.Ordered
import CaseUpdate.Json.Tree

namespace CaseUpdate.Json

mutual

/-- How many containers stand in one another. -/
def Tree.depth : Tree → Nat
  | .array items => itemsDepth items + 1
  | .object members => membersDepth members + 1
  | _ => 0

def itemsDepth : List Tree → Nat
  | [] => 0
  | t :: rest => max t.depth (itemsDepth rest)

def membersDepth : List (Option String × Tree) → Nat
  | [] => 0
  | (_, t) :: rest => max t.depth (membersDepth rest)

end

/-- The deepest nesting of a value. -/
def maxDepth : Nat := 127

mutual

/-- The value of a tree. Numbers must be in range and texts whole; of a repeated key the first
place and the last value count. -/
def ofTree : Tree → Option Json
  | .null => some .null
  | .bool b => some (.bool b)
  | .number w => w.number.map .number
  | .text s => s.map .text
  | .array items => (ofItems items).map .array
  | .object members => (ofMembers members).map fun ms => .object (Ordered.ofList ms)

def ofItems : List Tree → Option (List Json)
  | [] => some []
  | t :: rest => do
    let v ← ofTree t
    let vs ← ofItems rest
    return v :: vs

def ofMembers : List (Option String × Tree) → Option (List (String × Json))
  | [] => some []
  | (key, t) :: rest => do
    let k ← key
    let v ← ofTree t
    let vs ← ofMembers rest
    return (k, v) :: vs

end

/-- Reads the value that a text writes. -/
def read (s : String) : Option Json := do
  let t ← tree s
  if t.depth ≤ maxDepth then ofTree t else none

end CaseUpdate.Json
