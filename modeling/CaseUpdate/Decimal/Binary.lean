namespace CaseUpdate.Decimal

/-- A format: the bits of a significand, and the least and greatest exponent of its last bit. -/
structure Format where
  precision : Nat
  minExponent : Int
  maxExponent : Int

def double : Format := ⟨53, -1074, 971⟩

def single : Format := ⟨24, -149, 104⟩

structure Magnitude where
  significand : Nat
  exponent : Int
deriving DecidableEq

/-- A double: a signed magnitude, or one of the values beside the numbers. -/
inductive Double where
  | nan (negative : Bool)
  | infinite (negative : Bool)
  | finite (negative : Bool) (magnitude : Magnitude)
deriving DecidableEq

/-- Divides and rounds to the nearest integer, a half to the even one. -/
def divNearest (num den : Nat) : Nat :=
  let q := num / den
  let r := num % den
  if 2 * r < den ∨ (2 * r = den ∧ q % 2 = 0) then q else q + 1

/-- The fraction `num / den` divided by `base ^ e`. -/
def scaleDown (base num den : Nat) (e : Int) : Nat × Nat :=
  if 0 ≤ e then (num, den * base.pow e.toNat) else (num * base.pow (-e).toNat, den)

/-- The greatest `k` with `2 ^ k ≤ num / den`. -/
def binaryExponent (num den : Nat) : Int :=
  let k : Int := num.log2 - den.log2
  let scaled := scaleDown 2 num den k
  if scaled.2 ≤ scaled.1 then k else k - 1

/-- The number of the format nearest to the fraction `num / den`, or nothing where that is too great
for it. A tie goes to the number with the even significand. -/
def Format.round (f : Format) (num den : Nat) : Option Magnitude :=
  if num = 0 then some ⟨0, f.minExponent⟩
  else
    let e := max f.minExponent (binaryExponent num den + 1 - f.precision)
    let scaled := scaleDown 2 num den e
    let m := divNearest scaled.1 scaled.2
    let r : Magnitude :=
      if m = Nat.pow 2 f.precision then ⟨Nat.pow 2 (f.precision - 1), e + 1⟩ else ⟨m, e⟩
    if f.maxExponent < r.exponent then none else some r

namespace Magnitude

def ratio (x : Magnitude) : Nat × Nat :=
  if 0 ≤ x.exponent then (x.significand * Nat.pow 2 x.exponent.toNat, 1)
  else (x.significand, Nat.pow 2 (-x.exponent).toNat)

/-- The product, rounded to a double. -/
def times (x y : Magnitude) : Option Magnitude :=
  double.round (x.ratio.1 * y.ratio.1) (x.ratio.2 * y.ratio.2)

/-- The quotient, rounded to a double. -/
def dividedBy (x y : Magnitude) : Option Magnitude :=
  double.round (x.ratio.1 * y.ratio.2) (x.ratio.2 * y.ratio.1)

end Magnitude

namespace Double

/-- A rounded magnitude with its sign; one that is too great is infinite. -/
def ofMagnitude (negative : Bool) : Option Magnitude → Double
  | some x => .finite negative x
  | none => .infinite negative

/-- The double nearest to a fraction. -/
def ofFraction (num : Int) (den : Nat) : Double :=
  ofMagnitude (num < 0) (double.round num.natAbs den)

def ofInt (n : Int) : Double := ofFraction n 1

def fraction? : Double → Option (Int × Nat)
  | .finite negative x => some (if negative then -x.ratio.1 else x.ratio.1, x.ratio.2)
  | _ => none

/-- The nearest number of 32 bits, in the form that it has in its own format. -/
def toSingle : Double → Double
  | .finite negative x => ofMagnitude negative (single.round x.ratio.1 x.ratio.2)
  | x => x

def isFinite : Double → Bool
  | .finite _ _ => true
  | _ => false

def isNegative : Double → Bool
  | .nan s => s
  | .infinite s => s
  | .finite s _ => s

end Double

end CaseUpdate.Decimal
