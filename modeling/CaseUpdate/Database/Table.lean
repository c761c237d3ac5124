import CaseUpdate.Database.Value
import CaseUpdate.Sql.Update

namespace CaseUpdate.Database

open Sql (Name Expr When Assignment Update)

/-- A table of text. Each row has a cell for each column. -/
structure Table where
  name : String
  columns : List String
  rows : List (List Cell)
deriving DecidableEq

/-- What names have in common that name the same thing: all but the case of the letters A to Z. -/
def nameKey (s : String) : List Char := s.toList.map Char.toLower

/-- The name by which a table calls the column that is named, if it has one. -/
def resolve (columns : List String) (n : Name) : Name :=
  match columns.find? fun c => nameKey c = nameKey n.text with
  | some c => { n with text := c }
  | none => n

def cell? : List String → List Cell → String → Option Cell
  | c :: columns, v :: row, name => if c = name then some v else cell? columns row name
  | _, _, _ => none

def setCell : List String → List Cell → String → Cell → List Cell
  | c :: columns, v :: row, name, new =>
    (if c = name then new else v) :: setCell columns row name new
  | _, row, _, _ => row

/-- Whether a name can be read: it is a column, or its quotes may also be those of a text. -/
def reads (columns : List String) (n : Name) : Bool :=
  columns.contains n.text || n.style = .doubleQuote

/-- The value of a name in a row. A name in double quotes that is no column is a text. -/
def nameValue (columns : List String) (row : List Cell) (n : Name) : Cell :=
  (cell? columns row n.text).getD (some n.text)

section Evaluation

variable (arithmetic : Arithmetic) (columns : List String) (row : List Cell)

def exprValue : Expr → Value
  | .null => .null
  | .text s => .text s
  | .numeral negative s => arithmetic.numeral negative s
  | .column n => .ofCell (nameValue columns row n)
  | .negative e => arithmetic.negate (exprValue e)
  | .binary op e e' => arithmetic.apply op (exprValue e) (exprValue e')

/-- The value of the first branch whose key the lookup column has, else that of a name. -/
def caseValue (otherwise : Name) : List When → Cell
  | [] => nameValue columns row otherwise
  | w :: rest =>
    if nameValue columns row w.lookup = some w.key then
      (exprValue arithmetic columns row w.value).toCell
    else caseValue otherwise rest

/-- The row after assignments whose values come from `row`. -/
def assignAll (assignments : List Assignment) : List Cell :=
  assignments.foldl (fun new a =>
    setCell columns new a.column.text
      (caseValue arithmetic columns row a.otherwise a.branches)) row

end Evaluation

/-- Whether an update touches a row: its lookup cell is not NULL and equals one of the keys. -/
def touches (u : Update) (columns : List String) (row : List Cell) : Bool :=
  match nameValue columns row u.lookup with
  | some s => u.keys.contains s
  | none => false

def exprReads (columns : List String) : Expr → Bool
  | .column n => reads columns n
  | .negative e => exprReads columns e
  | .binary _ e e' => exprReads columns e && exprReads columns e'
  | _ => true

/-- Whether all names of an update can be read, and the assigned ones are columns. -/
def isWellNamed (u : Update) (columns : List String) : Bool :=
  reads columns u.lookup &&
    u.assignments.all fun a =>
      columns.contains a.column.text && reads columns a.otherwise &&
        a.branches.all fun w => reads columns w.lookup && exprReads columns w.value

/-- The table after an update, and how many rows were touched. All new values are computed from
the old row. -/
def Table.update (arithmetic : Arithmetic) (t : Table) (u : Update) : Table × Nat :=
  ({ t with rows := t.rows.map fun row =>
      if touches u t.columns row then assignAll arithmetic t.columns row u.assignments else row },
    t.rows.countP (touches u t.columns))

end CaseUpdate.Database
