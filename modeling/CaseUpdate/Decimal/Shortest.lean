import CaseUpdate.Decimal.Binary

namespace CaseUpdate.Decimal

/-- Which of two equally near decimals is written. -/
inductive Tie where
  | even
  | up
deriving DecidableEq

/-- Digits with one digit before the point, times `10 ^ exponent`. -/
structure Scientific where
  digits : List Char
  exponent : Int
deriving DecidableEq

/-- The greatest `k` with `10 ^ k ≤ num / den`. -/
def decimalExponent (num den : Nat) : Int :=
  let k : Int := (Nat.toDigits 10 num).length - (Nat.toDigits 10 den).length
  let scaled := scaleDown 10 num den k
  if scaled.2 ≤ scaled.1 then k else k - 1

/-- The interval of the reals that round to a magnitude, whose ends belong to it iff its significand
is even: its ends and the magnitude itself, in quarters of the last bit. -/
structure Interval where
  low : Nat
  middle : Nat
  high : Nat
  closed : Bool

/-- Below a power of two the next number of the format is half as far away. -/
def Magnitude.interval (f : Format) (x : Magnitude) : Interval where
  low :=
    if x.significand = Nat.pow 2 (f.precision - 1) ∧ f.minExponent < x.exponent
    then 4 * x.significand - 1 else 4 * x.significand - 2
  middle := 4 * x.significand
  high := 4 * x.significand + 2
  closed := x.significand % 2 = 0

/-- Whether `num / den` lies in the interval. -/
def Interval.contains (i : Interval) (num den : Nat) : Bool :=
  if i.closed then i.low * den ≤ num && num ≤ i.high * den
  else i.low * den < num && num < i.high * den

/-- The nearest multiple of `10 ^ grid` in the interval around a magnitude, if there is one. -/
def Magnitude.onGrid (f : Format) (tie : Tie) (x : Magnitude) (grid : Int) : Option Nat :=
  let i := x.interval f
  let quarter := scaleDown 2 1 1 (x.exponent - 2)
  let unit := scaleDown 10 quarter.1 quarter.2 (-grid)
  -- One unit of the grid is `unit.1 / unit.2` quarters.
  let q := i.middle * unit.2 / unit.1
  let r := i.middle * unit.2 % unit.1
  let below := i.contains (q * unit.1) unit.2
  let above := i.contains ((q + 1) * unit.1) unit.2
  let lower : Bool :=
    2 * r < unit.1 || (2 * r == unit.1 && (match tie with | .even => q % 2 == 0 | .up => false))
  match below, above with
  | false, false => none
  | true, false => some q
  | false, true => some (q + 1)
  | true, true => some (if lower then q else q + 1)

/-- The digits of `n * 10 ^ grid` without the zeros at the end. -/
def Scientific.ofGrid (n : Nat) (grid : Int) : Scientific :=
  let digits := Nat.toDigits 10 n
  ⟨(digits.reverse.dropWhile (· = '0')).reverse, grid + digits.length - 1⟩

/-- Tries ever finer grids; `fuel` bounds how many. -/
def Magnitude.search (f : Format) (tie : Tie) (x : Magnitude) : Nat → Int → Scientific
  | 0, _ => ⟨['0'], 0⟩
  | fuel + 1, grid =>
    match x.onGrid f tie grid with
    | some n => .ofGrid n grid
    | none => x.search f tie fuel (grid - 1)

/-- The fewest digits that read back in the format as a magnitude other than zero. On each decimal
grid, from one digit on, the two neighbours of the magnitude are tried; the first grid with a
neighbour in the interval wins, and of two neighbours the nearer. Seventeen digits tell all doubles
apart. -/
def Magnitude.shortest (f : Format) (tie : Tie) (x : Magnitude) : Scientific :=
  x.search f tie 18 (decimalExponent x.ratio.1 x.ratio.2)

end CaseUpdate.Decimal
