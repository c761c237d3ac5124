import CaseUpdate.Json.Printer
import CaseUpdate.Json.Reader
import CaseUpdate.Scalar
import CaseUpdate.Sql.Literal
import CaseUpdate.Text.Blank

namespace CaseUpdate.Sql

/-- Whether a text is a finite number with nothing but blanks before it. -/
def isNumeric (s : String) : Bool :=
  match Decimal.readDouble (Text.trimStart s.toList) with
  | some x => x.isFinite
  | none => false

/-- Whether a value is an object, an array or a text, and not an empty one. -/
def isFilled : Json → Bool
  | .object members => !members.isEmpty
  | .array items => !items.isEmpty
  | .text s => !s.isEmpty
  | _ => false

/-- Whether a text counts as a JSON document. -/
def isDocument (s : String) : Bool :=
  if isNumeric s then false
  else match Json.read s with
    | some v => isFilled v
    | none => false

mutual

/-- Writes every quote in the texts and keys of a value twice. -/
def doubledValue : Json → Json
  | .text s => .text (String.ofList (doubleQuotes s.toList))
  | .array items => .array (doubledItems items)
  | .object members => .object (Ordered.ofList (doubledMembers members))
  | v => v

def doubledItems : List Json → List Json
  | [] => []
  | v :: rest => doubledValue v :: doubledItems rest

def doubledMembers : List (String × Json) → List (String × Json)
  | [] => []
  | (k, v) :: rest =>
    (String.ofList (doubleQuotes k.toList), doubledValue v) :: doubledMembers rest

end

def doubleBackslashes (s : List Char) : List Char :=
  s.flatMap fun c => if c = '\\' then [c, c] else [c]

namespace LiteralStyle

/-- The body of a literal for a JSON value: its quotes are doubled before it is written and, where
backslashes escape, its backslashes after that. -/
def documentBody (style : LiteralStyle) (v : Json) : List Char :=
  let s := (doubledValue v).chars
  match style with
  | .backslash => doubleBackslashes s
  | .quoteDoubling => s

/-- The body of a literal for JSON text; text that does not read is escaped as plain text. -/
def sanitize (style : LiteralStyle) (s : String) : String :=
  String.ofList (match Json.read s with
    | some v => style.documentBody v
    | none => style.escapePlain s.toList)

/-- The body of a literal for a text. A JSON document is written anew in compact form before it is
escaped, all other text is escaped as it stands. -/
def escapeText (style : LiteralStyle) (s : String) : String :=
  if isDocument s then style.sanitize s else String.ofList (style.escapePlain s.toList)

/-- The body of a literal for a scalar; NULL has none. -/
def escapeScalar (style : LiteralStyle) : Scalar → Option String
  | .null => none
  | .bool b => some (if b then "1" else "0")
  | .int n => some (Scalar.int n).display
  | .float x => some (Scalar.float x).display
  | .text s => some (style.escapeText s)

theorem escapeScalar_eq_none_iff (style : LiteralStyle) (s : Scalar) :
    style.escapeScalar s = none ↔ s = .null := by
  cases s <;> simp [escapeScalar]

mutual

/-- Escapes the texts in a value and makes digits of its truth values. Keys, numbers and null stay
as they are. -/
def escapeValue (style : LiteralStyle) : Json → Json
  | .bool b => .text (if b then "1" else "0")
  | .text s => .text (style.escapeText s)
  | .array items => .array (escapeItems style items)
  | .object members => .object (escapeMembers style members)
  | v => v

def escapeItems (style : LiteralStyle) : List Json → List Json
  | [] => []
  | v :: rest => escapeValue style v :: escapeItems style rest

def escapeMembers (style : LiteralStyle) : List (String × Json) → List (String × Json)
  | [] => []
  | (k, v) :: rest => (k, escapeValue style v) :: escapeMembers style rest

end

end LiteralStyle

end CaseUpdate.Sql
