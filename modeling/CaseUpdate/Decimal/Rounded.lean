import CaseUpdate.Decimal.Layout

namespace CaseUpdate.Decimal

/-- A magnitude other than zero in so many significant digits, without zeros at the end. A half goes
up. -/
def Magnitude.rounded (digits : Nat) (x : Magnitude) : Scientific :=
  let grid := decimalExponent x.ratio.1 x.ratio.2 + 1 - digits
  let scaled := scaleDown 10 x.ratio.1 x.ratio.2 grid
  .ofGrid ((2 * scaled.1 + scaled.2) / (2 * scaled.2)) grid

/-- One digit, at least one after the point, and the exponent with its sign in at least two
places. -/
def Scientific.spelled (s : Scientific) : List Char :=
  let fraction := match s.digits.drop 1 with
    | [] => ['0']
    | rest => rest
  let places := Nat.toDigits 10 s.exponent.natAbs
  s.digits.take 1 ++ '.' :: (fraction ++ 'e' :: (if s.exponent < 0 then '-' else '+') ::
    (zeros (2 - places.length) ++ places))

end CaseUpdate.Decimal
