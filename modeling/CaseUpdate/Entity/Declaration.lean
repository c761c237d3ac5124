import CaseUpdate.Target.Model
import CaseUpdate.Text.Uppercase

namespace CaseUpdate.Entity

inductive Value where
  | text (s : String)
  /-- A number or a truth value. -/
  | other
deriving DecidableEq

/-- A key in an attribute list, with a value or without. -/
structure Setting where
  key : String
  value : Option Value
deriving DecidableEq

/-- An attribute list under a path, or the path alone. -/
structure Attribute where
  path : String
  settings : Option (List Setting)
deriving DecidableEq

structure FieldDecl where
  name : String
  attributes : List Attribute
deriving DecidableEq

inductive Kind where
  | record
  | tuple
  | unit
  | enumeration
  | union
deriving DecidableEq

/-- A declaration of a record. Its own attributes name its table and its stamps, those of a field
name a column. -/
structure Declaration where
  name : String
  kind : Kind
  attributes : List Attribute
  fields : List FieldDecl
deriving DecidableEq

inductive Error where
  | unknownModelAttribute
  | unknownColumnAttribute
  | expectedEquals
  | expectedComma
  | expectedText
  | expectedList (path : String)
  | unnamedFields
  | notARecord
  | secondPrimaryKey
deriving DecidableEq

def Error.message : Error → String
  | .unknownModelAttribute => "unknown model attribute"
  | .unknownColumnAttribute => "unknown column attribute"
  | .expectedEquals => "expected `=`"
  | .expectedComma => "expected `,`"
  | .expectedText => "expected a string literal"
  | .expectedList path =>
    "expected attribute arguments in parentheses: #[" ++ path ++ "(...)]"
  | .unnamedFields => "BatchModel derive only supports structs with named fields"
  | .notARecord => "BatchModel derive only supports structs"
  | .secondPrimaryKey => "BatchModel supports a single #[column(primary_key)]"

def Setting.text (s : Setting) : Except Error String :=
  match s.value with
  | none => .error .expectedEquals
  | some .other => .error .expectedText
  | some (.text t) => .ok t

def Setting.flag (s : Setting) : Except Error Unit :=
  match s.value with
  | none => .ok ()
  | some _ => .error .expectedComma

/-- What the attributes of a record have set. -/
structure ModelSettings where
  table : String
  updatedAt : Option String
  datePattern : Option String
deriving DecidableEq

/-- The flag for stamps names the default column, unless a column is named already. -/
def ModelSettings.apply (m : ModelSettings) (s : Setting) : Except Error ModelSettings :=
  if s.key = "table" then do return { m with table := ← s.text }
  else if s.key = "timestamps" then do
    s.flag
    return { m with updatedAt := some (m.updatedAt.getD Target.defaultStampColumn) }
  else if s.key = "updated_at" then do return { m with updatedAt := some (← s.text) }
  else if s.key = "date_format" then do return { m with datePattern := some (← s.text) }
  else .error .unknownModelAttribute

def ModelSettings.applyAttribute (m : ModelSettings) (a : Attribute) :
    Except Error ModelSettings :=
  if a.path = "model" then
    match a.settings with
    | some settings => settings.foldlM apply m
    | none => .error (.expectedList a.path)
  else .ok m

/-- What the attributes of a field have set. -/
structure ColumnSettings where
  name : Option String
  primaryKey : Bool
  json : Bool
deriving DecidableEq

def ColumnSettings.apply (m : ColumnSettings) (s : Setting) : Except Error ColumnSettings :=
  if s.key = "primary_key" then do
    s.flag
    return { m with primaryKey := true }
  else if s.key = "json" then do
    s.flag
    return { m with json := true }
  else if s.key = "name" then do return { m with name := some (← s.text) }
  else .error .unknownColumnAttribute

/-- The path alone sets nothing. -/
def ColumnSettings.applyAttribute (m : ColumnSettings) (a : Attribute) :
    Except Error ColumnSettings :=
  if a.path = "column" then (a.settings.getD []).foldlM apply m else .ok m

/-- A name in lower case: every capital but the first character has an underscore before it. Only
the letters A to Z are lowered. -/
def snakeChars : List Char → List Char
  | [] => []
  | first :: rest =>
    lower first :: rest.flatMap fun c => if Text.isUppercase c then ['_', lower c] else [c]
where
  lower (c : Char) : Char := if Text.isUppercase c then c.toLower else c

def snakeCase (name : String) : String := String.ofList (snakeChars name.toList)

/-- The columns so far, with those of them that hold structured values, and the primary key. -/
structure Columns where
  names : List String
  castable : List String
  primaryKey : Option String
deriving DecidableEq

/-- Adds the column of a field. Only one column can be the primary key. -/
def Columns.add (cs : Columns) (f : FieldDecl) : Except Error Columns := do
  let s ← f.attributes.foldlM ColumnSettings.applyAttribute ⟨none, false, false⟩
  let column := s.name.getD f.name
  if s.primaryKey && cs.primaryKey.isSome then .error .secondPrimaryKey
  else .ok {
    names := cs.names ++ [column]
    castable := if s.json then cs.castable ++ [column] else cs.castable
    primaryKey := if s.primaryKey then some column else cs.primaryKey }

/-- A model as it is declared: without a date pattern the default one counts. -/
structure Declared where
  table : String
  primaryKey : String
  columns : List String
  castable : List String
  updatedAt : Option String
  datePattern : Option String
deriving DecidableEq

/-- Only records with named fields have columns. -/
def Kind.check : Kind → Except Error Unit
  | .record => .ok ()
  | .tuple | .unit => .error .unnamedFields
  | .enumeration | .union => .error .notARecord

/-- The columns of a model: those of the fields, and the stamped one where no field has it. -/
def stampedColumns (names : List String) : Option String → List String
  | some column => if column ∈ names then names else names ++ [column]
  | none => names

/-- The primary key where no field is marked as it. -/
def defaultPrimaryKey : String := "id"

/-- The model of a declaration. Attributes are read in order, and the first that does not fit
decides the error. -/
def Declaration.model (d : Declaration) : Except Error Declared := do
  let m ← d.attributes.foldlM ModelSettings.applyAttribute ⟨snakeCase d.name, none, none⟩
  d.kind.check
  let cs ← d.fields.foldlM Columns.add ⟨[], [], none⟩
  return {
    table := m.table
    primaryKey := cs.primaryKey.getD defaultPrimaryKey
    columns := stampedColumns cs.names m.updatedAt
    castable := cs.castable
    updatedAt := m.updatedAt
    datePattern := m.datePattern }

def Declared.toModel (d : Declared) : Model :=
  ⟨d.table, d.primaryKey, d.columns, d.updatedAt,
    d.datePattern.getD Calendar.defaultPattern, d.castable⟩

end CaseUpdate.Entity
