import CaseUpdate.Json.Number
import CaseUpdate.Proofs.Decimal.Digits

namespace CaseUpdate.Json

open Decimal (AllDigits)

namespace Number

/-- What is read where a number was written. -/
def reread (n : Number) : Option Number := (Written.read n.chars).bind Written.number

/-- Whether an integer fits a word of 64 bits, signed or not. -/
def InRange : Number → Prop
  | .integer n => -0x8000000000000000 ≤ n ∧ n < 0x10000000000000000
  | .real _ _ => True

/-- The zero that is written with a minus, which no word holds. -/
def minusZero : Number := .real true ⟨0, Decimal.double.minExponent⟩

/-- Whether a number is what is read from digits alone, with or without a minus, that a word holds. -/
def IsWhole : Number → Prop
  | .integer _ => True
  | .real negative x => .real negative x = minusZero

end Number

theorem inRange_number {w : Written} {n : Number} (h : w.number = some n) : n.InRange := by
  have hreal (hr : w.real = some n) : n.InRange := by
    unfold Written.real at hr
    obtain ⟨x, -, rfl⟩ := Option.map_eq_some_iff.mp hr
    trivial
  unfold Written.number at h
  dsimp only at h
  split_ifs at h with hreal' hneg hzero hlt
  · exact hreal h
  · exact hreal h
  · cases h
    constructor <;> omega
  · cases h
    constructor <;> omega
  · exact hreal h

theorem takeWhile_digits {whole tail : List Char} (hw : AllDigits whole)
    (ht : ∀ c ∈ tail.head?, c.isDigit = false) :
    (whole ++ tail).takeWhile Char.isDigit = whole ∧
      (whole ++ tail).dropWhile Char.isDigit = tail := by
  rw [List.takeWhile_append_of_pos hw, List.dropWhile_append_of_pos hw]
  cases tail with
  | nil => simp
  | cons c tail =>
    have hc : c.isDigit = false := ht c (by simp)
    simp [hc]

/-- The parts of a number: whole digits without a needless zero, and what the point and the letter of
the exponent divide the rest into. -/
theorem Written.read_signed {whole tail fraction rest : List Char} {exponent : Option Int}
    (negative : Bool) (hw : AllDigits whole) (hne : whole ≠ [])
    (hzero : whole.head? = some '0' → whole = ['0']) (ht : ∀ c ∈ tail.head?, c.isDigit = false)
    (hpoint : splitPoint tail = some (fraction, rest))
    (hexponent : splitExponent rest = some exponent) :
    Written.read (Decimal.signed negative (whole ++ tail)) =
      some ⟨negative, whole, fraction, exponent⟩ := by
  obtain ⟨htake, hdrop⟩ := takeWhile_digits hw ht
  have hcond : ¬ (whole = [] ∨ (whole.head? = some '0' ∧ whole ≠ ['0'])) := by
    rintro (h | ⟨h, h'⟩)
    · exact hne h
    · exact h' (hzero h)
  cases negative with
  | true =>
    have hs : Decimal.signed true (whole ++ tail) = '-' :: (whole ++ tail) := rfl
    simp only [hs, Written.read, htake, hdrop, if_neg hcond, hpoint, hexponent,
      Option.bind_eq_bind, Option.bind_some]
    rfl
  | false =>
    have hs : Decimal.signed false (whole ++ tail) = whole ++ tail := rfl
    have hplain (s : List Char) : whole ++ tail ≠ '-' :: s := by
      obtain ⟨c, whole, rfl⟩ := List.exists_cons_of_ne_nil hne
      rintro ⟨⟩
      exact absurd (hw '-' (by simp)) (by decide)
    rw [hs, Written.read.eq_2 _ hplain]
    simp only [htake, hdrop, if_neg hcond, hpoint, hexponent, Option.bind_eq_bind,
      Option.bind_some]
    rfl

theorem read_integerChars (n : Int) :
    Written.read (integerChars n) = some ⟨n < 0, Nat.toDigits 10 n.natAbs, [], none⟩ := by
  have hzero : (Nat.toDigits 10 n.natAbs).head? = some '0' → Nat.toDigits 10 n.natAbs = ['0'] := by
    intro hhead
    by_cases h : n.natAbs = 0
    · rw [h]
      rfl
    · exact absurd hhead (Decimal.toDigits_head_ne_zero h)
  have h := Written.read_signed (n < 0) (Decimal.allDigits_toDigits n.natAbs) Nat.toDigits_ne_nil
    hzero (show ∀ c ∈ ([] : List Char).head?, c.isDigit = false by simp) rfl rfl
  rwa [List.append_nil] at h

/-- An integer is read where it was written. -/
theorem reread_integer {n : Int} (h : (Number.integer n).InRange) :
    (Number.integer n).reread = some (.integer n) := by
  obtain ⟨hlow, hhigh⟩ := h
  have hvalue : Decimal.digitsValue (Nat.toDigits 10 n.natAbs) = n.natAbs :=
    Nat.ofDigitChars_ten_toDigits
  rw [Number.reread, Number.chars, read_integerChars, Option.bind_some, Written.number]
  simp only [hvalue, ne_eq, not_true_eq_false, or_self, if_false, decide_eq_true_eq]
  by_cases hneg : n < 0
  · have hword : ¬ (n.natAbs = 0 ∨ 0x8000000000000000 < n.natAbs) := by omega
    rw [if_pos hneg, if_neg hword]
    congr 2
    omega
  · have hword : n.natAbs < 0x10000000000000000 := by omega
    rw [if_neg hneg, if_pos hword]
    congr 2
    omega

theorem reread_zero (negative : Bool) :
    (Number.real negative ⟨0, Decimal.double.minExponent⟩).reread =
      some (.real negative ⟨0, Decimal.double.minExponent⟩) := by
  have hchars : (Number.real negative ⟨0, Decimal.double.minExponent⟩).chars =
      Decimal.signed negative "0.0".toList := rfl
  have hread : Written.read (Decimal.signed negative "0.0".toList) =
      some ⟨negative, ['0'], ['0'], none⟩ := by
    cases negative <;> decide
  have hround : Decimal.double.round 0 1 = some ⟨0, Decimal.double.minExponent⟩ := rfl
  have hscaled : scaled 0 (-1) = some ⟨0, Decimal.double.minExponent⟩ := by
    rw [scaled, hround, Option.bind_eq_bind, Option.bind_some, if_pos (by decide), divideByPower]
    rfl
  rw [Number.reread, hchars, hread, Option.bind_some, Written.number, if_pos (.inl (by simp)),
    Written.real]
  exact congrArg (Option.map (Number.real negative)) hscaled

theorem reread_of_isWhole {n : Number} (h : n.InRange) (hw : n.IsWhole) : n.reread = some n := by
  cases n with
  | integer n => exact reread_integer h
  | real negative x =>
    rw [Number.IsWhole] at hw
    rw [hw]
    exact reread_zero true

end CaseUpdate.Json
