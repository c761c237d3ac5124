import CaseUpdate.Json.Basic
import CaseUpdate.Json.Printer

namespace CaseUpdate

/-- A value that fits a column by itself. -/
inductive Scalar where
  | null
  | bool (b : Bool)
  | int (n : Int)
  | float (x : Decimal.Double)
  | text (s : String)
deriving DecidableEq

namespace Scalar

def kind : Scalar → String
  | .null => "null"
  | .bool _ => "bool"
  | .int _ => "int"
  | .float _ => "float"
  | .text _ => "text"

/-- The scalar that a JSON value holds; arrays and objects hold none. An integer beyond 64 signed
bits becomes the nearest double. -/
def ofJson? : Json → Option Scalar
  | .null => some .null
  | .bool b => some (.bool b)
  | .number n => some (match n.word? with
    | some i => .int i
    | none => .float n.toDouble)
  | .text s => some (.text s)
  | .array _ => none
  | .object _ => none

/-- A scalar as plain text, neither escaped nor quoted. -/
def display : Scalar → String
  | .null => "NULL"
  | .bool true => "true"
  | .bool false => "false"
  | .int n => String.ofList (Json.integerChars n)
  | .float x => String.ofList x.plain
  | .text s => s

end Scalar

end CaseUpdate
