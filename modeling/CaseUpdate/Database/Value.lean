import CaseUpdate.Decimal.Numeral
import CaseUpdate.Decimal.Rounded
import CaseUpdate.Json.Printer
import CaseUpdate.Step

namespace CaseUpdate.Database

open Decimal (Double)

/-- A text, or NULL. -/
abbrev Cell := Option String

/-- What an expression of a statement evaluates to. -/
inductive Value where
  | null
  /-- An integer of 64 bits. -/
  | integer (n : Int)
  | real (x : Double)
  | text (s : String)
deriving DecidableEq

/-- A double as text, in fifteen significant digits, positional for exponents from -4 to 14. -/
def realChars : Double → List Char
  | .nan _ => []
  | .infinite negative => Decimal.signed negative "Inf".toList
  | .finite negative x =>
    if x.significand = 0 then "0.0".toList
    else
      let s := x.rounded 15
      Decimal.signed negative (if s.exponent < -4 ∨ 14 < s.exponent then s.spelled else s.pointed)

namespace Value

def ofCell : Cell → Value
  | some s => .text s
  | none => .null

/-- What is stored of a value in a column of text. -/
def toCell : Value → Cell
  | .null => none
  | .integer n => some (String.ofList (Json.integerChars n))
  | .real x => some (String.ofList (realChars x))
  | .text s => some s

/-- An integer, which is a double where it does not fit 64 bits. -/
def ofInt (n : Int) : Value := if Decimal.isWord n then .integer n else .real (.ofInt n)

/-- A result in doubles; what is no number is NULL. -/
def ofDouble : Double → Value
  | .nan _ => .null
  | x => .real x

/-- The value of a numeral. Digits alone are an integer. -/
def ofNumeral (negative : Bool) (s : String) : Value :=
  match Decimal.readDigits s.toList with
  | some n => ofInt (if negative then -n else n)
  | none =>
    match Decimal.readNumeral s.toList with
    | some n => .real { n with negative := negative }.toDouble
    | none => .null

/-- The exponent at the beginning of a text, if there is one. -/
def leadingExponent : List Char → Option Int
  | [] => none
  | c :: s =>
    let (negative, s) := Decimal.splitSign s
    let digits := s.takeWhile Char.isDigit
    if (c = 'e' ∨ c = 'E') ∧ digits ≠ [] then
      some (if negative then -Decimal.digitsValue digits else Decimal.digitsValue digits)
    else none

/-- The sign of a text and what follows it. Blanks before the sign count for nothing. -/
def splitSign (s : List Char) : Bool × List Char :=
  Decimal.splitSign (s.dropWhile fun c => c = ' ' || ('\t' ≤ c && c ≤ '\r'))

/-- The integer at the beginning of a text, or zero. -/
def leadingInteger (s : List Char) : Int :=
  let (negative, s) := splitSign s
  let n := Decimal.digitsValue (s.takeWhile Char.isDigit)
  if negative then -n else n

/-- The number at the beginning of a text, or zero. Without a point or an exponent it is an
integer. -/
def leadingNumber (s : List Char) : Value :=
  let (negative, s) := splitSign s
  let whole := s.takeWhile Char.isDigit
  let rest := s.dropWhile Char.isDigit
  let (fraction, rest') := Decimal.splitFraction rest
  let exponent := leadingExponent rest'
  if whole = [] ∧ fraction = [] ∨ rest.head? ≠ some '.' ∧ exponent = none then
    ofInt (if negative then -Decimal.digitsValue whole else Decimal.digitsValue whole)
  else
    let n := Decimal.digitsValue (whole ++ fraction)
    .real (Decimal.Numeral.toDouble ⟨negative, n, exponent.getD 0 - fraction.length⟩)

def number : Value → Value
  | .text s => leadingNumber s.toList
  | v => v

/-- The nearest integer of 64 bits to another one. -/
def clamp (n : Int) : Int := max (-0x8000000000000000) (min 0x7fffffffffffffff n)

/-- The integer part of a value. Of a text only the integer at its beginning counts. -/
def integerPart : Value → Int
  | .null => 0
  | .integer n => n
  | .real x =>
    match x.fraction? with
    | some (num, den) => clamp (num.tdiv den)
    | none => 0
  | .text s => clamp (leadingInteger s.toList)

def toDouble : Value → Double
  | .integer n => .ofInt n
  | .real x => x
  | .null | .text _ => .nan false

end Value

/-- The arithmetic of a database. -/
structure Arithmetic where
  /-- The value of a numeral, perhaps with a minus before it. -/
  numeral : Bool → String → Value
  negate : Value → Value
  apply : Operator → Value → Value → Value

/-- Arithmetic on doubles. Nothing can be divided by zero, and a remainder is that of the integer
parts `m` and `n`. -/
def realResult (op : Operator) (x y : Double) (m n : Int) : Value :=
  match x.fraction?, y.fraction? with
  | some (a, b), some (c, d) =>
    match op with
    | .add => .ofDouble (.ofFraction (a * d + c * b) (b * d))
    | .subtract => .ofDouble (.ofFraction (a * d - c * b) (b * d))
    | .multiply => .ofDouble (.ofFraction (a * c) (b * d))
    | .divide =>
      if c = 0 then .null
      else .ofDouble (.ofFraction (if c < 0 then -(a * d) else a * d) (b * c.natAbs))
    | .modulo => if n = 0 then .null else .ofDouble (.ofInt (m.tmod n))
  | _, _ => .null

/-- Arithmetic on integers, toward zero, or on doubles where the result does not fit 64 bits. -/
def integerResult (op : Operator) (m n : Int) : Value :=
  let fit (r : Int) : Value :=
    if Decimal.isWord r then .integer r else realResult op (.ofInt m) (.ofInt n) m n
  match op with
  | .add => fit (m + n)
  | .subtract => fit (m - n)
  | .multiply => fit (m * n)
  | .divide => if n = 0 then .null else fit (m.tdiv n)
  | .modulo => if n = 0 then .null else fit (m.tmod n)

/-- Arithmetic on the numbers that values count as. With NULL there is none. -/
def numericResult (op : Operator) (v w : Value) : Value :=
  match v.number, w.number with
  | .null, _ => .null
  | _, .null => .null
  | .integer m, .integer n => integerResult op m n
  | a, b => realResult op a.toDouble b.toDouble v.integerPart w.integerPart

/-- Arithmetic on integers of 64 bits and doubles. -/
def Arithmetic.numeric : Arithmetic where
  numeral := .ofNumeral
  negate := numericResult .subtract (.integer 0)
  apply := numericResult

end CaseUpdate.Database
