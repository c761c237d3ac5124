import CaseUpdate.Json.Printer
import CaseUpdate.Ordered
import CaseUpdate.Row.Reason

namespace CaseUpdate

/-- What typed data says about itself when it is turned into JSON. -/
inductive Record where
  /-- Nothing: an absent option or a unit. -/
  | nothing
  /-- A present option, which is only its content and no key. -/
  | present (r : Record)
  /-- A wrapper with no shape of its own. -/
  | wrapped (r : Record)
  | bool (b : Bool)
  | int (n : Int)
  | float (x : Decimal.Double)
  /-- A number of 32 bits, as the double that it is. -/
  | single (x : Decimal.Double)
  /-- A single character, or a text. -/
  | text (s : String)
  | bytes (bs : List Nat)
  | sequence (items : List Record)
  | map (entries : List (Record × Record))
  | fields (entries : List (String × Record))
  /-- An alternative without content. -/
  | variant (name : String)
  | variantOf (name : String) (content : Record)
  | variantSequence (name : String) (items : List Record)
  | variantFields (name : String) (entries : List (String × Record))
  /-- A record that cannot be turned, and why. -/
  | failure (reason : String)

namespace Record

/-- The JSON number of an integer. It must fit a word of 64 bits, signed or not. -/
def integer (n : Int) : Except String Json :=
  if -0x8000000000000000 ≤ n ∧ n < 0x10000000000000000 then .ok (.number (.integer n))
  else .error "number out of range"

/-- A double as JSON; null where it is no number. -/
def real : Decimal.Double → Json
  | .finite negative x => .number (.real negative x)
  | _ => .null

/-- The text of a real as the key of a map, which must be finite. -/
def realKey (chars : Decimal.Magnitude → List Char) : Decimal.Double → Except String String
  | .finite negative x => .ok (String.ofList (Decimal.signed negative (chars x)))
  | _ => .error "float key must be finite (got NaN or +/-inf)"

/-- The text of a record as the key of a map. Only here a number of 32 bits is written with the
digits of its own format. -/
def key : Record → Except String String
  | .text s => .ok s
  | .int n => .ok (String.ofList (Json.integerChars n))
  | .float x => realKey Decimal.Magnitude.json x
  | .single x => realKey Decimal.Magnitude.jsonSingle x.toSingle
  | .bool b => .ok (if b then "true" else "false")
  | .variant name => .ok name
  | .wrapped r => key r
  | .failure reason => .error (Reason.text reason)
  | _ => .error "key must be a string"

mutual

/-- The JSON value of a record. Fields and entries are turned in order, so that the first one that
cannot be turned decides the error. -/
def toJson : Record → Except String Json
  | .nothing => .ok .null
  | .present r => toJson r
  | .wrapped r => toJson r
  | .bool b => .ok (.bool b)
  | .int n => integer n
  | .float x => .ok (real x)
  | .single x => .ok (real x)
  | .text s => .ok (.text s)
  | .bytes bs => .ok (.array (bs.map fun (b : Nat) => .number (.integer b)))
  | .sequence items => do return .array (← itemsToJson items)
  | .map entries => do return .object (Ordered.ofList (← entriesToJson entries))
  | .fields entries => do return .object (Ordered.ofList (← fieldsToJson entries))
  | .variant name => .ok (.text name)
  | .variantOf name content => do return .object [(name, ← toJson content)]
  | .variantSequence name items => do return .object [(name, .array (← itemsToJson items))]
  | .variantFields name entries => do
    return .object [(name, .object (Ordered.ofList (← fieldsToJson entries)))]
  | .failure reason => .error (Reason.text reason)

def itemsToJson : List Record → Except String (List Json)
  | [] => .ok []
  | r :: rest => do
    let v ← toJson r
    let vs ← itemsToJson rest
    return v :: vs

def entriesToJson : List (Record × Record) → Except String (List (String × Json))
  | [] => .ok []
  | (k, r) :: rest => do
    let k ← key k
    let v ← toJson r
    let vs ← entriesToJson rest
    return (k, v) :: vs

def fieldsToJson : List (String × Record) → Except String (List (String × Json))
  | [] => .ok []
  | (k, r) :: rest => do
    let v ← toJson r
    let vs ← fieldsToJson rest
    return (k, v) :: vs

end

end Record

end CaseUpdate
