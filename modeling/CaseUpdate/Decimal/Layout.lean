import CaseUpdate.Decimal.Shortest

namespace CaseUpdate.Decimal

def zeros (n : Nat) : List Char := List.replicate n '0'

/-- Digits around a point, none of them an exponent. -/
def Scientific.positional (s : Scientific) : List Char :=
  if s.exponent < 0 then '0' :: '.' :: (zeros (-s.exponent - 1).toNat ++ s.digits)
  else
    let whole := s.exponent.toNat + 1
    if s.digits.length ≤ whole then s.digits ++ zeros (whole - s.digits.length)
    else s.digits.take whole ++ '.' :: s.digits.drop whole

/-- One digit, the rest after a point, and the exponent with its sign. -/
def Scientific.exponential (s : Scientific) : List Char :=
  let tail := match s.digits.drop 1 with
    | [] => []
    | rest => '.' :: rest
  let sign := if s.exponent < 0 then '-' else '+'
  s.digits.take 1 ++ tail ++ 'e' :: sign :: Nat.toDigits 10 s.exponent.natAbs

def signed (negative : Bool) (s : List Char) : List Char := if negative then '-' :: s else s

/-- Plain text: positional however long it gets, and no point without digits after it. Of two
nearest shortest decimals the greater is written. -/
def Magnitude.plain (x : Magnitude) : List Char :=
  if x.significand = 0 then ['0'] else (x.shortest double .up).positional

def Double.plain : Double → List Char
  | .nan _ => "NaN".toList
  | .infinite negative => signed negative "inf".toList
  | .finite negative x => signed negative x.plain

/-- Positional with at least one digit after the point. -/
def Scientific.pointed (s : Scientific) : List Char :=
  if s.exponent < 0 ∨ s.exponent.toNat + 1 < s.digits.length then s.positional
  else s.positional ++ ['.', '0']

/-- JSON's notation for a number of a format: positional with at least one digit after the point for
exponents from `least` to `greatest`, exponential elsewhere. Of two nearest shortest decimals the
even one is written. -/
def Magnitude.jsonIn (f : Format) (least greatest : Int) (x : Magnitude) : List Char :=
  if x.significand = 0 then "0.0".toList
  else
    let s := x.shortest f .even
    if s.exponent < least ∨ greatest < s.exponent then s.exponential else s.pointed

/-- Doubles are written positionally from `10 ^ -5` up to below `10 ^ 16`. -/
def Magnitude.json : Magnitude → List Char := jsonIn double (-5) 15

/-- Numbers of 32 bits are written positionally from `10 ^ -6` up to below `10 ^ 13`. -/
def Magnitude.jsonSingle : Magnitude → List Char := jsonIn single (-6) 12

end CaseUpdate.Decimal
