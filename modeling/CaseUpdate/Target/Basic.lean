import CaseUpdate.Calendar.Pattern
import CaseUpdate.Sql.Dialect

namespace CaseUpdate

/-- The column that is stamped with the time of an update, and the pattern of the stamps. -/
structure Stamp where
  column : String
  pattern : String
deriving DecidableEq

/-- The table that a batch updates. -/
structure Target where
  table : String
  primaryKey : String
  /-- What the connection puts before the names of its tables. -/
  tablePrefix : String
  /-- The columns of the table, where they are known. -/
  knownColumns : Option (List String)
  stamp : Option Stamp
  /-- The columns that hold structured values in a form of their own. -/
  castable : List String
  dialect : Sql.Dialect
deriving DecidableEq

namespace Target

/-- A target about which nothing more is known. -/
def ofTable (table primaryKey : String) : Target :=
  ⟨table, primaryKey, "", none, none, [], .generic⟩

def withPrefix (t : Target) (p : String) : Target := { t with tablePrefix := p }

def withDialect (t : Target) (d : Sql.Dialect) : Target := { t with dialect := d }

def withColumns (t : Target) (columns : List String) : Target :=
  { t with knownColumns := some columns }

def withStamp (t : Target) (column pattern : String) : Target :=
  { t with stamp := some ⟨column, pattern⟩ }

/-- The column that is stamped if no other one is named. -/
def defaultStampColumn : String := "updated_at"

def withDefaultStamp (t : Target) : Target :=
  t.withStamp defaultStampColumn Calendar.defaultPattern

def withCastable (t : Target) (columns : List String) : Target :=
  { t with castable := t.castable ++ columns }

/-- The name of the table in the database. -/
def qualifiedTable (t : Target) : String := t.tablePrefix ++ t.table

/-- Whether a column is known; where the columns are not known, none is. -/
def hasColumn (t : Target) (column : String) : Bool :=
  match t.knownColumns with
  | some columns => columns.contains column
  | none => false

def isCastable (t : Target) (column : String) : Bool := t.castable.contains column

def nameStyle (t : Target) : Sql.NameStyle := t.dialect.nameStyle

def literalStyle (t : Target) : Sql.LiteralStyle := t.dialect.literalStyle

end Target

end CaseUpdate
