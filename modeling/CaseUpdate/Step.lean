import CaseUpdate.Decimal.Numeral
import CaseUpdate.Json.Printer
import CaseUpdate.Text.Blank

namespace CaseUpdate

inductive Operator where
  | add
  | subtract
  | multiply
  | divide
  | modulo
deriving DecidableEq

namespace Operator

def symbol : Operator → Char
  | .add => '+'
  | .subtract => '-'
  | .multiply => '*'
  | .divide => '/'
  | .modulo => '%'

def all : List Operator := [.add, .subtract, .multiply, .divide, .modulo]

/-- Whether an operator binds more tightly than a sum. -/
def isTight : Operator → Bool
  | .add | .subtract => false
  | .multiply | .divide | .modulo => true

def ofChar? (c : Char) : Option Operator := all.find? (fun op => op.symbol = c)

/-- Reads an operator. Nothing but the symbol alone is one. -/
def read (s : String) : Option Operator :=
  match s.toList with
  | [c] => ofChar? c
  | _ => none

end Operator

/-- The number on the right of an operator. -/
inductive Operand where
  | int (n : Int)
  | float (x : Decimal.Double)
deriving DecidableEq

namespace Operand

def kind : Operand → String
  | .int _ => "int"
  | .float _ => "float"

/-- Reads an operand between blanks: an integer where it fits a word of 64 bits, else the nearest
double, which must be finite. -/
def read (s : String) : Option Operand :=
  let s := Text.trim s.toList
  match Decimal.readWord s with
  | some n => some (.int n)
  | none => ((Decimal.readDouble s).filter Decimal.Double.isFinite).map .float

/-- The operand that a JSON number or a text of one names; it must be finite. -/
def ofJson? : Json → Option Operand
  | .number n =>
    match n.word? with
    | some i => some (.int i)
    | none => ((some n.toDouble).filter Decimal.Double.isFinite).map .float
  | .text s => read s
  | _ => none

/-- Whether the operand is written with a minus; the negative zero is. -/
def isNegative : Operand → Bool
  | .int n => n < 0
  | .float x => x.isNegative

def chars : Operand → List Char
  | .int n => Json.integerChars n
  | .float x => x.plain

end Operand

/-- Why a list of JSON values is no step. -/
inductive StepError where
  | arity (n : Nat)
  | operator
  | operand
deriving DecidableEq

def StepError.message : StepError → String
  | .arity n => "expected 2 values, got " ++ toString n
  | .operator => "first value must be a string math operator"
  | .operand => "second value must be numeric"

/-- A change of a column relative to the value that it has: the operator comes between the old
value and the operand. -/
structure Step where
  operator : Operator
  operand : Operand
deriving DecidableEq

namespace Step

def operatorOf? : Json → Option Operator
  | .text s => Operator.read s
  | _ => none

/-- Reads a pair of an operator and an operand. Nothing is coerced. -/
def ofItems : List Json → Except StepError Step
  | [operator, operand] =>
    match operatorOf? operator, Operand.ofJson? operand with
    | none, _ => .error .operator
    | some _, none => .error .operand
    | some op, some x => .ok ⟨op, x⟩
  | items => .error (.arity items.length)

end Step

end CaseUpdate
