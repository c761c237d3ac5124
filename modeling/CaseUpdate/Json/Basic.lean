import CaseUpdate.Decimal.Layout
import CaseUpdate.Decimal.Numeral

namespace CaseUpdate

/-- A JSON number: an integer, or a real that is finite by construction. -/
inductive Json.Number where
  | integer (n : Int)
  | real (negative : Bool) (magnitude : Decimal.Magnitude)
deriving DecidableEq

/-- A JSON value. Members keep the order in which their keys first came. -/
inductive Json where
  | null
  | bool (b : Bool)
  | number (n : Json.Number)
  | text (s : String)
  | array (items : List Json)
  | object (members : List (String × Json))

namespace Json

def Number.word? : Number → Option Int
  | .integer n => if Decimal.isWord n then some n else none
  | .real _ _ => none

def Number.toDouble : Number → Decimal.Double
  | .integer n => .ofInt n
  | .real negative x => .finite negative x

def shape : Json → String
  | .null => "null"
  | .bool _ => "bool"
  | .number _ => "number"
  | .text _ => "string"
  | .array _ => "array"
  | .object _ => "object"

end Json

end CaseUpdate
