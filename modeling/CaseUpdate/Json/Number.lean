import CaseUpdate.Decimal.Numeral
import CaseUpdate.Json.Basic

namespace CaseUpdate.Json

open Decimal (Magnitude double digitsValue)

/-- The parts of a number as written. A fraction is empty where there is no point. -/
structure Written where
  negative : Bool
  whole : List Char
  fraction : List Char
  exponent : Option Int
deriving DecidableEq

/-- The digits after a point, at least one, and what follows them. -/
def splitPoint : List Char → Option (List Char × List Char)
  | '.' :: s =>
    let digits := s.takeWhile Char.isDigit
    if digits = [] then none else some (digits, s.dropWhile Char.isDigit)
  | s => some ([], s)

def splitExponent : List Char → Option (Option Int)
  | [] => some none
  | c :: s => if c = 'e' ∨ c = 'E' then (Decimal.readInteger s).map some else none

/-- Splits the text of a number. A zero stands alone before the point. -/
def Written.read (s : List Char) : Option Written :=
  let (negative, s) := match s with
    | '-' :: s => (true, s)
    | s => (false, s)
  let whole := s.takeWhile Char.isDigit
  if whole = [] ∨ (whole.head? = some '0' ∧ whole ≠ ['0']) then none
  else do
    let (fraction, rest) ← splitPoint (s.dropWhile Char.isDigit)
    let exponent ← splitExponent rest
    return ⟨negative, whole, fraction, exponent⟩

/-- Takes digits into a word of 64 bits as long as they fit, and returns it with those left. -/
def takeDigits (n : Nat) : List Char → Nat × List Char
  | [] => (n, [])
  | c :: s =>
    let m := 10 * n + (c.toNat - 48)
    if m < 0x10000000000000000 then takeDigits m s else (n, c :: s)

def powerOfTen (k : Nat) : Option Magnitude := double.round (Nat.pow 10 k) 1

/-- Divides by `10 ^ k`, by at most `10 ^ 308` at a time, until nothing is left. -/
def divideByPower (x : Magnitude) (k : Nat) : Option Magnitude :=
  if k ≤ 308 then do x.dividedBy (← powerOfTen k)
  else if x.significand = 0 then some x
  else do divideByPower (← x.dividedBy (← powerOfTen 308)) (k - 308)
termination_by k

/-- The double for `n * 10 ^ e`, or nothing where it is too great. -/
def scaled (n : Nat) (e : Int) : Option Magnitude := do
  let x ← double.round n 1
  if e < 0 then divideByPower x (-e).toNat
  else if e ≤ 308 then x.times (← powerOfTen e.toNat)
  else if n = 0 then some x
  else none

/-- The real that the parts of a number name. Of its digits as many as fit a word make the
significand, and one multiplication or division by a power of ten follows, each step rounded. A
number written in more than sixteen digits may thus miss the nearest double by a little. -/
def Written.real (w : Written) : Option Number :=
  let (n, dropped) := takeDigits 0 w.whole
  let (n, ignored) := takeDigits n w.fraction
  let taken := w.fraction.length - ignored.length
  (scaled n (dropped.length - taken + w.exponent.getD 0)).map (.real w.negative)

/-- The number that its parts name. An integer that fits a word of 64 bits stays one, and any other
number is a real; so is a negative zero. -/
def Written.number (w : Written) : Option Number :=
  let n := digitsValue w.whole
  if w.fraction ≠ [] ∨ w.exponent ≠ none then w.real
  else if w.negative then
    if n = 0 ∨ 0x8000000000000000 < n then w.real else some (.integer (-n))
  else if n < 0x10000000000000000 then some (.integer n)
  else w.real

end CaseUpdate.Json
