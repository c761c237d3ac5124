import CaseUpdate.Decimal.Binary

namespace CaseUpdate.Decimal

/-- The number `digits * 10 ^ exponent` with a sign. -/
structure Numeral where
  negative : Bool
  digits : Nat
  exponent : Int
deriving DecidableEq

def digitsValue (s : List Char) : Nat := Nat.ofDigitChars 10 s 0

def splitSign : List Char → Bool × List Char
  | '-' :: s => (true, s)
  | '+' :: s => (false, s)
  | s => (false, s)

def readDigits (s : List Char) : Option Nat :=
  if s ≠ [] ∧ s.all Char.isDigit then some (digitsValue s) else none

def readInteger (s : List Char) : Option Int :=
  let (negative, s) := splitSign s
  (readDigits s).map fun n => if negative then -(n : Int) else n

/-- Whether an integer fits a signed word of 64 bits. -/
def isWord (n : Int) : Bool := decide (-0x8000000000000000 ≤ n ∧ n < 0x8000000000000000)

/-- Reads an integer that fits a signed word of 64 bits. -/
def readWord (s : List Char) : Option Int := (readInteger s).filter isWord

/-- The exponent at the end of a real: nothing, or the letter and an integer. -/
def readExponent : List Char → Option Int
  | [] => some 0
  | c :: s => if c = 'e' ∨ c = 'E' then readInteger s else none

/-- The digits after the point, and what follows them. -/
def splitFraction : List Char → List Char × List Char
  | '.' :: s => (s.takeWhile Char.isDigit, s.dropWhile Char.isDigit)
  | s => ([], s)

/-- Reads a real that is written in digits: an optional sign, digits with at most one point before,
among or after them, and an optional exponent. -/
def readNumeral (s : List Char) : Option Numeral :=
  let (negative, s) := splitSign s
  let whole := s.takeWhile Char.isDigit
  let (fraction, rest) := splitFraction (s.dropWhile Char.isDigit)
  if whole = [] ∧ fraction = [] then none
  else (readExponent rest).map fun e =>
    ⟨negative, digitsValue (whole ++ fraction), e - fraction.length⟩

/-- The magnitude of a numeral in a format. Beyond 400 decimal places either way no format has
numbers, so such numerals need no powers of ten. -/
def Numeral.round (f : Format) (n : Numeral) : Option Magnitude :=
  let top : Int := (Nat.toDigits 10 n.digits).length + n.exponent
  if n.digits = 0 ∨ top < -400 then f.round 0 1
  else if 400 < top then none
  else
    let scaled := scaleDown 10 n.digits 1 (-n.exponent)
    f.round scaled.1 scaled.2

def Numeral.toDouble (n : Numeral) : Double := .ofMagnitude n.negative (n.round double)

/-- The words for the values beside the numbers, in any case. -/
def readWordy (s : List Char) : Option Double :=
  let (negative, s) := splitSign s
  let s := s.map Char.toLower
  if s = "inf".toList ∨ s = "infinity".toList then some (.infinite negative)
  else if s = "nan".toList then some (.nan negative)
  else none

/-- Reads a real as the nearest double. -/
def readDouble (s : List Char) : Option Double :=
  match readNumeral s with
  | some n => some n.toDouble
  | none => readWordy s

/-- Reads a real as the nearest number of 32 bits, which is a double too. -/
def readSingle (s : List Char) : Option Double :=
  match readNumeral s with
  | some n =>
    some (.ofMagnitude n.negative ((n.round single).bind fun x => double.round x.ratio.1 x.ratio.2))
  | none => readWordy s

end CaseUpdate.Decimal
