import CaseUpdate.Database.Table

namespace CaseUpdate

/-- A database of text tables, in the order of their creation. -/
structure Database where
  tables : List Database.Table
deriving DecidableEq

namespace Database

/-- String literals double their quotes, and so do names but for those in brackets, which end at
the first closing one. -/
def lexis : Sql.Lexis := ⟨.quoteDoubling, fun style => style ≠ .bracket⟩

def table? (db : Database) (name : String) : Option Table :=
  db.tables.find? fun t => nameKey t.name = nameKey name

/-- The columns of a table; a table that is missing has none. -/
def columnsOf (db : Database) (name : String) : List String :=
  match db.table? name with
  | some t => t.columns
  | none => []

/-- Adds a table. Its name must be new, and it needs columns with different names. -/
def createTable (db : Database) (t : Table) : Option Database :=
  if (db.table? t.name).isNone ∧ t.columns ≠ [] ∧ (t.columns.map nameKey).Nodup then
    some ⟨db.tables ++ [t]⟩
  else none

def dropTable (db : Database) (name : String) : Option Database :=
  match db.table? name with
  | some _ => some ⟨db.tables.filter fun t => nameKey t.name ≠ nameKey name⟩
  | none => none

/-- Puts a table in the place of the one that has its name. -/
def replace (db : Database) (t : Table) : Database :=
  ⟨db.tables.map fun old => if old.name = t.name then t else old⟩

/-- Adds a column at the end, which is NULL in all rows. -/
def addColumn (db : Database) (name column : String) : Option Database :=
  match db.table? name with
  | some t =>
    if nameKey column ∈ t.columns.map nameKey then none
    else some (db.replace { t with
      columns := t.columns ++ [column]
      rows := t.rows.map fun row => row ++ [none] })
  | none => none

/-- Runs an update. The table must exist, and its columns must fit the names. -/
def run (arithmetic : Arithmetic) (db : Database) (u : Sql.Update) : Option (Database × Nat) :=
  match db.table? u.table.text with
  | some t =>
    let u := u.mapNames (resolve t.columns)
    if isWellNamed u t.columns then
      let (t, touched) := t.update arithmetic u
      some (db.replace t, touched)
    else none
  | none => none

/-- Executes the text of a statement and counts the rows that it touches. The text ends at its
first NUL character. -/
def execute (arithmetic : Arithmetic) (db : Database) (sql : String) : Option (Database × Nat) := do
  let u ← Sql.Update.read lexis (String.ofList (sql.toList.takeWhile (· ≠ '\x00')))
  db.run arithmetic u

end Database

end CaseUpdate
