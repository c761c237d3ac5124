import CaseUpdate.Json.Reader
import CaseUpdate.Target.Model

namespace CaseUpdate

/-- The settings of a connection that bear on its targets. -/
structure Connection where
  driver : String
  tablePrefix : String
deriving DecidableEq

namespace Connection

def dialect (c : Connection) : Sql.Dialect := .ofDriver c.driver

def target (c : Connection) (table primaryKey : String) : Target :=
  ((Target.ofTable table primaryKey).withPrefix c.tablePrefix).withDialect c.dialect

/-- The target for the table of a model on the connection. -/
def targetFor (c : Connection) (m : Model) : Target := (m.target c.dialect).withPrefix c.tablePrefix

def textOf : Json.Tree → Option String
  | .text s => s
  | _ => none

/-- The settings read so far; each may come once. -/
structure Draft where
  driver : Option String
  tablePrefix : Option String

/-- Takes one member. A member with another key counts for nothing, whatever its value. -/
def Draft.add (d : Draft) (key : Option String) (t : Json.Tree) : Option Draft := do
  let k ← key
  if k = "driver" then
    match d.driver with
    | some _ => none
    | none => (textOf t).map fun s => { d with driver := some s }
  else if k = "prefix" then
    match d.tablePrefix with
    | some _ => none
    | none => (textOf t).map fun s => { d with tablePrefix := some s }
  else some d

/-- The settings in a tree: an object, or the two texts in a list. A setting that is missing is
empty. -/
def ofTree : Json.Tree → Option Connection
  | .object members => do
    let d ← members.foldlM (fun d m => d.add m.1 m.2) (⟨none, none⟩ : Draft)
    return ⟨d.driver.getD "", d.tablePrefix.getD ""⟩
  | .array [] => some ⟨"", ""⟩
  | .array [d] => do return ⟨← textOf d, ""⟩
  | .array [d, p] => do return ⟨← textOf d, ← textOf p⟩
  | _ => none

def read (s : String) : Option Connection := (Json.tree s).bind ofTree

end Connection

/-- The dialect in a tree: its name, or an object that gives null for its name. -/
def Sql.Dialect.ofTree : Json.Tree → Option Sql.Dialect
  | .text (some s) => Sql.Dialect.ofName? s
  | .object [(some s, .null)] => Sql.Dialect.ofName? s
  | _ => none

def Sql.Dialect.read (s : String) : Option Sql.Dialect := (Json.tree s).bind Sql.Dialect.ofTree

end CaseUpdate
