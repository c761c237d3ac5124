import CaseUpdate.Batch.Error
import CaseUpdate.Batch.Gathered
import CaseUpdate.Row.Basic
import CaseUpdate.Row.Record
import CaseUpdate.Sql.Document
import CaseUpdate.Target.Basic

namespace CaseUpdate.Batch

open Calendar (Instant)

inductive Input where
  | row (r : Row)
  | json (v : Json)
  | record (r : Record)

def rowOfJson : Json → Except Error Row
  | .object members => .ok (.ofMembers members)
  | v => .error (.invalidRow v.shape)

def rowOfRecord (r : Record) : Except Error Row :=
  match r.toJson with
  | .ok v => rowOfJson v
  | .error reason => .error (.serialization reason)

def Input.toRow : Input → Except Error Row
  | .row r => .ok r
  | .json v => rowOfJson v
  | .record r => rowOfRecord r

structure Options where
  /-- The column that finds the table rows, if it is not the primary key. -/
  lookup : Option String
  /-- Values stand without quotes. -/
  raw : Bool
  /-- Columns that the target does not know are refused. -/
  strict : Bool
deriving DecidableEq

def Options.default : Options := ⟨none, false, false⟩

def lookupColumn (target : Target) (options : Options) : String :=
  options.lookup.getD target.primaryKey

/-- Refuses a pattern of stamps that has an unknown directive, before any row is looked at. -/
def checkPattern (target : Target) : Except Error Unit :=
  match target.stamp with
  | none => .ok ()
  | some s =>
    match Calendar.readPattern s.pattern with
    | some _ => .ok ()
    | none => .error (.invalidDateFormat s.pattern)

def admitted (target : Target) (options : Options) : Except Error (Option (List String)) :=
  if options.strict then
    match target.knownColumns with
    | some columns => .ok (some columns)
    | none => .error (.columnsUnavailable target.table)
  else .ok none

/-- What is checked before the first row: there must be rows, the pattern of stamps must read, and
the admitted columns must be known. -/
def admission (target : Target) (options : Options) (rows : List Row) :
    Except Error (Option (List String)) :=
  if rows.isEmpty then .error .emptyInput
  else do
    checkPattern target
    admitted target options

/-- The lookup value of a row: a scalar, and not NULL. -/
def keyOf (lookup : String) (index : Nat) (r : Row) : Except Error Scalar :=
  match r.get? lookup with
  | some (.scalar s) => if s = .null then .error (.missingLookupValue lookup index) else .ok s
  | _ => .error (.missingLookupValue lookup index)

/-- Whether a row brings a stamp of its own: any value but the scalar NULL. -/
def isStamped (column : String) (r : Row) : Bool :=
  match r.get? column with
  | none => false
  | some (.scalar s) => s ≠ .null
  | some _ => true

/-- The row with the time of the update, unless it brings a stamp of its own. -/
def stamped (target : Target) (now : Instant) (r : Row) : Except Error Row :=
  match target.stamp with
  | none => .ok r
  | some s =>
    if isStamped s.column r then .ok r
    else match now.format s.pattern with
      | some text => .ok (r.set s.column (.text text))
      | none => .error (.invalidDateFormat s.pattern)

def assignedScalar (style : Sql.LiteralStyle) (s : Scalar) : Assigned :=
  match style.escapeScalar s with
  | some body => .literal body
  | none => .null

/-- The value that a change assigns. A list must be a step; an object is stored as its compact
text, except in a castable column. -/
def assigned (target : Target) (column : String) (c : Change) : Except Error Assigned :=
  match c with
  | .scalar s => .ok (assignedScalar target.literalStyle s)
  | .step s => .ok (.step s)
  | .document (.array items) =>
    match Step.ofItems items with
    | .ok s => .ok (.step s)
    | .error reason =>
      if target.isCastable column then .error (.castableValue column c.kind)
      else .error (.invalidIncrement column reason)
  | .document (.object members) =>
    if target.isCastable column then .error (.castableValue column c.kind)
    else .ok (.literal (target.literalStyle.escapeText (Json.compact (.object members))))
  | .document v => .ok (assignedScalar target.literalStyle ((Scalar.ofJson? v).getD .null))

def checkColumn (target : Target) (known : Option (List String)) (column : String) :
    Except Error Unit :=
  match known with
  | none => .ok ()
  | some columns =>
    if column ∈ columns then .ok () else .error (.unknownColumn column target.table)

/-- What a change contributes to its column. The lookup column is checked like the others, but
nothing is assigned to it. -/
def contribution (target : Target) (known : Option (List String)) (lookup column : String)
    (c : Change) : Except Error (Option Assigned) := do
  checkColumn target known column
  if column = lookup then return none
  else return some (← assigned target column c)

def keyLiteral (target : Target) (key : Scalar) : String :=
  (target.literalStyle.escapeScalar key).getD ""

/-- Gathers the changes of a row whose key has the literal, up to the first one that is refused. -/
def gatherChanges (target : Target) (known : Option (List String)) (lookup literal : String)
    (g : Gathered) : List (String × Change) → Except Error Unit × Gathered
  | [] => (.ok (), g)
  | (column, c) :: rest =>
    match contribution target known lookup column c with
    | .error e => (.error e, g)
    | .ok none => gatherChanges target known lookup literal g rest
    | .ok (some value) =>
      gatherChanges target known lookup literal (g.push column ⟨literal, value⟩) rest

/-- Gathers a row, and returns the literal of its key. The key is read before the row is stamped. -/
def gatherRow (target : Target) (now : Instant) (known : Option (List String)) (lookup : String)
    (g : Gathered) (index : Nat) (r : Row) : Except Error String × Gathered :=
  match keyOf lookup index r with
  | .error e => (.error e, g)
  | .ok key =>
    match stamped target now r with
    | .error e => (.error e, g)
    | .ok r =>
      match gatherChanges target known lookup (keyLiteral target key) g r.entries with
      | (.error e, g) => (.error e, g)
      | (.ok (), g) => (.ok (keyLiteral target key), g.addKey key)

/-- Gathers rows, whose numbers go on from `index`, and returns the literals of their keys. What was
gathered before an error stays. -/
def gatherRows (target : Target) (now : Instant) (known : Option (List String)) (lookup : String) :
    Gathered → Nat → List Row → Except Error (List String) × Gathered
  | g, _, [] => (.ok [], g)
  | g, index, r :: rest =>
    match gatherRow target now known lookup g index r with
    | (.error e, g) => (.error e, g)
    | (.ok literal, g) =>
      let (literals, g) := gatherRows target now known lookup g (index + 1) rest
      (literals.map (literal :: ·), g)

def compiledOf (target : Target) (options : Options) (literals : List String) (g : Gathered) :
    Compiled where
  statement := {
    table := target.qualifiedTable
    lookup := lookupColumn target options
    style := target.nameStyle
    raw := options.raw
    blocks := g.blocks
    keys := literals }
  keys := g.keys

end CaseUpdate.Batch
