import CaseUpdate.Proofs.Decimal.Digits
import CaseUpdate.Proofs.Decimal.Nearest

namespace CaseUpdate.Decimal

/-- The power of ten that the last digit counts. -/
def Scientific.last (s : Scientific) : Int := s.exponent + 1 - s.digits.length

/-- The number that digits with an exponent stand for. -/
def Scientific.value (s : Scientific) : ℚ := digitsValue s.digits * 10 ^ s.last

section Digits

theorem digitsValue_append (s t : List Char) :
    digitsValue (s ++ t) = digitsValue s * 10 ^ t.length + digitsValue t := by
  rw [digitsValue, Nat.ofDigitChars_append, Nat.ofDigitChars_eq_ofDigitChars_zero, Nat.mul_comm]
  rfl

theorem digitsValue_zeros (n : Nat) : digitsValue (zeros n) = 0 := by
  rw [digitsValue, zeros, Nat.ofDigitChars_replicate_zero, Nat.mul_zero]

theorem digitsValue_append_zeros (s : List Char) (n : Nat) :
    digitsValue (s ++ zeros n) = digitsValue s * 10 ^ n := by
  rw [digitsValue_append, digitsValue_zeros, zeros, List.length_replicate, Nat.add_zero]

theorem digitsValue_lt {s : List Char} (hs : AllDigits s) : digitsValue s < 10 ^ s.length := by
  induction s with
  | nil => exact Nat.one_pos
  | cons c s ih =>
    have hdigit : digitsValue [c] ≤ 9 := by
      have hc := hs c List.mem_cons_self
      simp only [Char.isDigit, Bool.and_eq_true, decide_eq_true_eq, ge_iff_le,
        UInt32.le_iff_toNat_le] at hc
      have hvalue : digitsValue [c] = c.val.toNat - 48 := by
        simp [digitsValue, Nat.ofDigitChars]
      rw [hvalue]
      exact Nat.sub_le_sub_right hc.2 48
    have hrest := ih fun d hd => hs d (List.mem_cons_of_mem c hd)
    have hsplit := digitsValue_append [c] s
    rw [List.singleton_append] at hsplit
    rw [hsplit, List.length_cons, Nat.pow_succ]
    nlinarith

/-- A number is its digits without the zeros at the end, and these zeros. -/
theorem exists_zeros (n : Nat) :
    ∃ k, Nat.toDigits 10 n = (Nat.toDigits 10 n).rdropWhile (· = '0') ++ zeros k := by
  have hsplit := List.takeWhile_append_dropWhile (p := fun c => decide (c = '0'))
    (l := (Nat.toDigits 10 n).reverse)
  refine ⟨((Nat.toDigits 10 n).reverse.takeWhile (· = '0')).length, ?_⟩
  have hzeros : (Nat.toDigits 10 n).reverse.takeWhile (· = '0') =
      zeros ((Nat.toDigits 10 n).reverse.takeWhile (· = '0')).length := by
    apply List.eq_replicate_of_mem
    intro c hc
    simpa using List.mem_takeWhile_imp hc
  have h := congrArg List.reverse hsplit
  rw [List.reverse_append, List.reverse_reverse, hzeros, zeros, List.reverse_replicate] at h
  exact h.symm

end Digits

namespace Scientific

variable {n : Nat} (grid : Int)

theorem digits_ofGrid : (ofGrid n grid).digits = (Nat.toDigits 10 n).rdropWhile (· = '0') := rfl

theorem value_ofGrid : (ofGrid n grid).value = n * 10 ^ grid := by
  obtain ⟨k, hk⟩ := exists_zeros n
  have hvalue : digitsValue (ofGrid n grid).digits * 10 ^ k = n := by
    rw [digits_ofGrid, ← digitsValue_append_zeros, ← hk]
    exact Nat.ofDigitChars_ten_toDigits
  have hlength : (Nat.toDigits 10 n).length = (ofGrid n grid).digits.length + k := by
    rw [hk, List.length_append, digits_ofGrid, zeros, List.length_replicate]
  have hlast : (ofGrid n grid).last = k + grid := by
    have h : (ofGrid n grid).exponent = grid + (Nat.toDigits 10 n).length - 1 := rfl
    rw [last]
    omega
  rw [value, hlast, zpow_add₀ (by norm_num), ← mul_assoc, zpow_natCast]
  exact_mod_cast congrArg (· * (10 : ℚ) ^ grid) (congrArg (Nat.cast : Nat → ℚ) hvalue)

/-- The digits of a number other than zero do not start with one. -/
theorem head_ofGrid (hn : n ≠ 0) :
    (ofGrid n grid).digits ≠ [] ∧ (ofGrid n grid).digits.head? ≠ some '0' := by
  have hhead := toDigits_head_ne_zero hn
  obtain ⟨k, hk⟩ := exists_zeros n
  rw [digits_ofGrid]
  rw [hk] at hhead
  cases h : (Nat.toDigits 10 n).rdropWhile (· = '0') with
  | cons c rest =>
    rw [h] at hhead
    exact ⟨List.cons_ne_nil c rest, hhead⟩
  | nil =>
    rw [h, List.nil_append] at hk hhead
    obtain ⟨j, rfl⟩ : ∃ j, k = j + 1 := by
      refine Nat.exists_eq_succ_of_ne_zero ?_
      rintro rfl
      exact Nat.toDigits_ne_nil hk
    exact absurd rfl hhead

end Scientific

namespace Magnitude

variable {x : Magnitude} {tie : Tie}

section Grids

variable {grid : Int}

/-- How many quarters of the last bit one unit of a grid is. -/
theorem unit_value (e grid : Int) :
    let quarter := scaleDown 2 1 1 (e - 2)
    let unit := scaleDown 10 quarter.1 quarter.2 (-grid)
    0 < unit.1 ∧ 0 < unit.2 ∧ (unit.1 / unit.2 : ℚ) = 10 ^ grid / 2 ^ (e - 2) := by
  intro quarter unit
  have hquarter : 0 < quarter.2 := scaleDown_pos (by decide) Nat.one_pos _
  have hpos : 0 < unit.2 := scaleDown_pos (by decide) hquarter _
  have hvalue : (unit.1 / unit.2 : ℚ) = 10 ^ grid / 2 ^ (e - 2) := by
    have h1 := scaleDown_value 1 1 (show 0 < 2 by decide) (e - 2)
    have h2 := scaleDown_value quarter.1 quarter.2 (show 0 < 10 by decide) (-grid)
    rw [h2, h1]
    simp [div_eq_mul_inv, mul_comm]
  refine ⟨?_, hpos, hvalue⟩
  have hpositive : (0 : ℚ) < unit.1 / unit.2 := by
    rw [hvalue]
    positivity
  rw [div_pos_iff_of_pos_right (by exact_mod_cast hpos)] at hpositive
  exact_mod_cast hpositive

/-- A multiple that is found on a grid is nearer to the magnitude than to another double. -/
theorem near_of_onGrid {n : Nat} (h : x.onGrid double tie grid = some n) :
    x.Near (n * 10 ^ grid) := by
  obtain ⟨-, hpos, hvalue⟩ := unit_value x.exponent grid
  unfold onGrid at h
  dsimp only at hpos hvalue h
  generalize scaleDown 10 (scaleDown 2 1 1 (x.exponent - 2)).1 (scaleDown 2 1 1 (x.exponent - 2)).2
    (-grid) = unit at hpos hvalue h
  have hcontains (q : Nat) (hq : (x.interval double).contains (q * unit.1) unit.2) :
      x.Near (q * 10 ^ grid) := by
    have hholds := (Interval.contains_iff _ hpos).mp hq
    rw [Nat.cast_mul, mul_div_assoc, hvalue, ← mul_div_assoc] at hholds
    exact hholds
  split at h
  · cases h
  · cases h
    exact hcontains _ ‹_›
  · cases h
    exact hcontains _ ‹_›
  · cases h
    split_ifs
    · exact hcontains _ ‹_›
    · exact hcontains _ ‹_›

/-- There is a multiple where one unit of the grid is at most a quarter of the last bit. -/
theorem exists_onGrid (tie : Tie) (hx : 0 < x.significand)
    (hgrid : (10 : ℚ) ^ grid ≤ 2 ^ (x.exponent - 2)) : ∃ n, x.onGrid double tie grid = some n := by
  obtain ⟨hunit, hpos, hvalue⟩ := unit_value x.exponent grid
  unfold onGrid
  dsimp only at hunit hpos hvalue ⊢
  generalize scaleDown 10 (scaleDown 2 1 1 (x.exponent - 2)).1 (scaleDown 2 1 1 (x.exponent - 2)).2
    (-grid) = unit at hunit hpos hvalue ⊢
  have hsmall : unit.1 ≤ unit.2 := by
    have hone : (unit.1 / unit.2 : ℚ) ≤ 1 := by
      rw [hvalue]
      exact (div_le_one (by positivity)).mpr hgrid
    rw [div_le_one (by exact_mod_cast hpos)] at hone
    exact_mod_cast hone
  have hbelow : (x.interval double).contains
      ((x.interval double).middle * unit.2 / unit.1 * unit.1) unit.2 = true := by
    have hdiv := Nat.div_add_mod' ((x.interval double).middle * unit.2) unit.1
    have hmod := Nat.mod_lt ((x.interval double).middle * unit.2) hunit
    generalize (x.interval double).middle * unit.2 / unit.1 * unit.1 = below at hdiv ⊢
    generalize (x.interval double).middle * unit.2 % unit.1 = r at hdiv hmod
    have hlow : ((x.interval double).low + 1) * unit.2 ≤ (x.interval double).middle * unit.2 := by
      gcongr
      unfold interval
      dsimp only
      split_ifs <;> omega
    have hhigh : ((x.interval double).middle + 2) * unit.2 = (x.interval double).high * unit.2 := rfl
    rw [Nat.add_mul] at hlow hhigh
    unfold Interval.contains
    split_ifs
    · rw [Bool.and_eq_true, decide_eq_true_eq, decide_eq_true_eq]
      omega
    · rw [Bool.and_eq_true, decide_eq_true_eq, decide_eq_true_eq]
      omega
  rw [hbelow]
  split
  · contradiction
  · exact ⟨_, rfl⟩
  · contradiction
  · exact ⟨_, rfl⟩

end Grids

/-- A search that gets to a grid fine enough ends with a multiple near to the magnitude. -/
theorem search_eq (tie : Tie) (hx : 0 < x.significand) (fuel : Nat) {grid : Int}
    (hgrid : (10 : ℚ) ^ (grid - fuel) ≤ 2 ^ (x.exponent - 2)) :
    ∃ n g, x.search double tie (fuel + 1) grid = .ofGrid n g ∧ x.Near (n * 10 ^ g) := by
  induction fuel generalizing grid with
  | zero =>
    rw [Nat.cast_zero, sub_zero] at hgrid
    obtain ⟨n, hn⟩ := exists_onGrid tie hx hgrid
    exact ⟨n, grid, by rw [search, hn], near_of_onGrid hn⟩
  | succ fuel ih =>
    rw [search]
    cases hn : x.onGrid double tie grid with
    | some n => exact ⟨n, grid, rfl, near_of_onGrid hn⟩
    | none =>
      refine ih ?_
      rwa [sub_sub, add_comm (1 : Int), ← Nat.cast_one, ← Nat.cast_add]

/-- Whether it gets there or not, a search ends with some digits. -/
theorem search_ne_nil (tie : Tie) (hx : 0 < x.significand) (fuel : Nat) (grid : Int) :
    (x.search double tie fuel grid).digits ≠ [] := by
  induction fuel generalizing grid with
  | zero =>
    rw [search]
    simp
  | succ fuel ih =>
    rw [search]
    cases h : x.onGrid double tie grid with
    | none => exact ih (grid - 1)
    | some n =>
      have hn : n ≠ 0 := by
        rintro rfl
        have hvalue := (near_of_onGrid h).pos hx
        simp at hvalue
      exact (Scientific.head_ofGrid grid hn).1

/-- Seventeen digits are enough. -/
theorem seventeen_digits (hx : x.IsDouble) (hpos : 0 < x.significand) :
    (10 : ℚ) ^ (decimalExponent x.ratio.1 x.ratio.2 - 17) ≤ 2 ^ (x.exponent - 2) := by
  obtain ⟨hdecimal, -⟩ := decimalExponent_spec (ratio_fst_pos hpos) x.ratio_pos
  rw [x.ratio_value, value] at hdecimal
  have hsignificand : (x.significand : ℚ) ≤ 2 ^ 53 := by exact_mod_cast hx.significand_lt.le
  have hquarter : (2 : ℚ) ^ x.exponent = 4 * 2 ^ (x.exponent - 2) := by
    rw [zpow_sub₀ two_ne_zero]
    norm_num
    ring
  have hpow : (0 : ℚ) < 2 ^ (x.exponent - 2) := by positivity
  rw [zpow_sub₀ (by norm_num), div_le_iff₀ (by positivity)]
  calc (10 : ℚ) ^ decimalExponent x.ratio.1 x.ratio.2
      ≤ x.significand * 2 ^ x.exponent := hdecimal
    _ ≤ 2 ^ 53 * (4 * 2 ^ (x.exponent - 2)) := by
        rw [hquarter]
        gcongr
    _ = 2 ^ (x.exponent - 2) * 2 ^ 55 := by ring
    _ ≤ 2 ^ (x.exponent - 2) * 10 ^ (17 : Int) := by
        gcongr
        norm_num

/-- The shortest digits of a double stand for a number that is nearer to it than to another double,
and have no zero before others. -/
theorem shortest_spec (tie : Tie) (hx : x.IsDouble) (hpos : 0 < x.significand) :
    x.Near (x.shortest double tie).value ∧ (x.shortest double tie).digits ≠ [] ∧
      (x.shortest double tie).digits.head? ≠ some '0' := by
  obtain ⟨n, grid, hsearch, hnear⟩ := search_eq tie hpos 17 (seventeen_digits hx hpos)
  have hn : n ≠ 0 := by
    rintro rfl
    have hvalue := hnear.pos hpos
    simp at hvalue
  have hshortest : x.shortest double tie = .ofGrid n grid := hsearch
  rw [hshortest, Scientific.value_ofGrid]
  exact ⟨hnear, Scientific.head_ofGrid grid hn⟩

end Magnitude

end CaseUpdate.Decimal
