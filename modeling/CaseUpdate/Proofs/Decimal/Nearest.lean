import Mathlib
import CaseUpdate.Decimal.Shortest

namespace CaseUpdate.Decimal

/-- The number that a magnitude stands for. -/
def Magnitude.value (x : Magnitude) : ℚ := x.significand * 2 ^ x.exponent

section Fractions

variable {base num den : Nat}

theorem scaleDown_pos (hb : 0 < base) (hd : 0 < den) (e : Int) :
    0 < (scaleDown base num den e).2 := by
  unfold scaleDown
  split_ifs
  · exact Nat.mul_pos hd (Nat.pow_pos hb)
  · exact hd

theorem scaleDown_value (num den : Nat) (hb : 0 < base) (e : Int) :
    ((scaleDown base num den e).1 : ℚ) / (scaleDown base num den e).2 =
      num / den / (base : ℚ) ^ e := by
  have hbase : (base : ℚ) ≠ 0 := by exact_mod_cast hb.ne'
  unfold scaleDown
  split_ifs with h
  · obtain ⟨k, rfl⟩ := Int.eq_ofNat_of_zero_le h
    simp [Nat.pow_eq, div_div]
  · obtain ⟨k, rfl⟩ : ∃ k : Nat, e = -k := ⟨(-e).toNat, by omega⟩
    simp [Nat.pow_eq, div_mul_eq_mul_div]

theorem Magnitude.ratio_pos (x : Magnitude) : 0 < x.ratio.2 := by
  unfold Magnitude.ratio
  split_ifs
  · exact Nat.one_pos
  · exact Nat.pow_pos (by decide)

theorem Magnitude.ratio_fst_pos {x : Magnitude} (hx : 0 < x.significand) : 0 < x.ratio.1 := by
  unfold Magnitude.ratio
  split_ifs
  · exact Nat.mul_pos hx (Nat.pow_pos (by decide))
  · exact hx

theorem Magnitude.ratio_value (x : Magnitude) : (x.ratio.1 : ℚ) / x.ratio.2 = x.value := by
  unfold Magnitude.ratio Magnitude.value
  split_ifs with h
  · obtain ⟨k, hk⟩ := Int.eq_ofNat_of_zero_le h
    simp [hk, Nat.pow_eq]
  · obtain ⟨k, hk⟩ : ∃ k : Nat, x.exponent = -k := ⟨(-x.exponent).toNat, by omega⟩
    simp [hk, Nat.pow_eq, div_eq_mul_inv]

theorem quotient_bounds {b x y : ℚ} (hb : 1 < b) {p q : Int} (hx : b ^ p ≤ x)
    (hx' : x < b ^ (p + 1)) (hy : b ^ q ≤ y) (hy' : y < b ^ (q + 1)) :
    b ^ (p - q - 1) ≤ x / y ∧ x / y < b ^ (p - q + 1) := by
  have hb0 : 0 < b := zero_lt_one.trans hb
  have hy0 : 0 < y := (zpow_pos hb0 q).trans_le hy
  constructor
  · rw [le_div_iff₀ hy0]
    calc b ^ (p - q - 1) * y
        ≤ b ^ (p - q - 1) * b ^ (q + 1) := by gcongr
      _ = b ^ p := by
          rw [← zpow_add₀ hb0.ne']
          congr 1
          ring
      _ ≤ x := hx
  · rw [div_lt_iff₀ hy0]
    calc x < b ^ (p + 1) := hx'
      _ = b ^ (p - q + 1) * b ^ q := by
          rw [← zpow_add₀ hb0.ne']
          congr 1
          ring
      _ ≤ b ^ (p - q + 1) * y := by gcongr

/-- The exponent of a quotient is the difference of the exponents or one less, which a comparison
decides. -/
theorem exponent_of_guess (hb : 1 < base) (hd : 0 < den) {p q : Int}
    (hx : (base : ℚ) ^ p ≤ num) (hx' : (num : ℚ) < (base : ℚ) ^ (p + 1))
    (hy : (base : ℚ) ^ q ≤ den) (hy' : (den : ℚ) < (base : ℚ) ^ (q + 1)) :
    let k := p - q
    let e := if (scaleDown base num den k).2 ≤ (scaleDown base num den k).1 then k else k - 1
    (base : ℚ) ^ e ≤ num / den ∧ (num / den : ℚ) < (base : ℚ) ^ (e + 1) := by
  have hone : (1 : ℚ) < base := by exact_mod_cast hb
  obtain ⟨hlow, hhigh⟩ := quotient_bounds hone hx hx' hy hy'
  have hpower : (0 : ℚ) < (base : ℚ) ^ (p - q) := zpow_pos (zero_lt_one.trans hone) _
  have hpos : (0 : ℚ) < (scaleDown base num den (p - q)).2 := by
    exact_mod_cast scaleDown_pos (Nat.zero_lt_one.trans hb) hd _
  have hscaled := scaleDown_value num den (Nat.zero_lt_one.trans hb) (p - q)
  have hiff : (scaleDown base num den (p - q)).2 ≤ (scaleDown base num den (p - q)).1 ↔
      (base : ℚ) ^ (p - q) ≤ num / den := by
    rw [← one_le_div hpower, ← hscaled, one_le_div hpos, Nat.cast_le]
  dsimp only
  split_ifs with h
  · exact ⟨hiff.mp h, hhigh⟩
  · refine ⟨hlow, ?_⟩
    rw [sub_add_cancel]
    exact not_le.mp fun hle => h (hiff.mpr hle)

theorem binaryExponent_spec (hn : 0 < num) (hd : 0 < den) :
    (2 : ℚ) ^ binaryExponent num den ≤ num / den ∧
      (num / den : ℚ) < 2 ^ (binaryExponent num den + 1) := by
  have hlow {n : Nat} (h : 0 < n) : ((2 : Nat) : ℚ) ^ (n.log2 : Int) ≤ n := by
    exact_mod_cast Nat.log2_self_le h.ne'
  have hhigh {n : Nat} : (n : ℚ) < ((2 : Nat) : ℚ) ^ ((n.log2 : Int) + 1) := by
    exact_mod_cast Nat.lt_log2_self
  have h := exponent_of_guess (by decide) hd (hlow hn) hhigh (hlow hd) hhigh
  rwa [Nat.cast_ofNat] at h

theorem zpow_le_iff (hn : 0 < num) (hd : 0 < den) {k : Int} :
    (2 : ℚ) ^ k ≤ num / den ↔ k ≤ binaryExponent num den := by
  obtain ⟨hlow, hhigh⟩ := binaryExponent_spec hn hd
  constructor
  · intro h
    exact Int.lt_add_one_iff.mp ((zpow_lt_zpow_iff_right₀ one_lt_two).mp (h.trans_lt hhigh))
  · intro h
    exact (zpow_le_zpow_right₀ one_le_two h).trans hlow

/-- How many digits a number has. -/
theorem length_toDigits_spec {n : Nat} (hn : 0 < n) :
    ((10 : Nat) : ℚ) ^ ((Nat.toDigits 10 n).length - 1 : Int) ≤ n ∧
      (n : ℚ) < ((10 : Nat) : ℚ) ^ (((Nat.toDigits 10 n).length - 1 : Int) + 1) := by
  obtain ⟨k, hk⟩ := Nat.exists_eq_succ_of_ne_zero (@Nat.length_toDigits_pos 10 n).ne'
  have hhigh : n < 10 ^ (k + 1) :=
    (Nat.length_toDigits_le_iff (by decide) k.succ_pos).mp hk.le
  have hlow : 10 ^ k ≤ n := by
    rcases Nat.eq_zero_or_pos k with rfl | hpos
    · exact hn
    · by_contra hlt
      have hle := (Nat.length_toDigits_le_iff (by decide) hpos).mpr (not_le.mp hlt)
      omega
  have hexponent : ((Nat.toDigits 10 n).length - 1 : Int) = k := by
    rw [hk]
    push_cast
    ring
  rw [hexponent]
  exact ⟨by exact_mod_cast hlow, by exact_mod_cast hhigh⟩

theorem decimalExponent_spec (hn : 0 < num) (hd : 0 < den) :
    (10 : ℚ) ^ decimalExponent num den ≤ num / den ∧
      (num / den : ℚ) < 10 ^ (decimalExponent num den + 1) := by
  obtain ⟨hn1, hn2⟩ := length_toDigits_spec hn
  obtain ⟨hd1, hd2⟩ := length_toDigits_spec hd
  have h := exponent_of_guess (by decide) hd hn1 hn2 hd1 hd2
  rw [decimalExponent]
  simpa using h

end Fractions

/-- A half away from an integer, a fraction is rounded to it if it is even; less than that, always. -/
theorem divNearest_of_le {num den m : Nat} (hd : 0 < den) (hlow : 2 * m * den ≤ 2 * num + den)
    (hhigh : 2 * num ≤ (2 * m + 1) * den) (hlowTie : 2 * m * den = 2 * num + den → m % 2 = 0)
    (hhighTie : 2 * num = (2 * m + 1) * den → m % 2 = 0) : divNearest num den = m := by
  have hdiv : den * (num / den) + num % den = num := Nat.div_add_mod num den
  have hmod : num % den < den := Nat.mod_lt num hd
  unfold divNearest
  generalize num / den = q at hdiv ⊢
  generalize num % den = r at hdiv hmod ⊢
  subst hdiv
  have hle : q ≤ m := by
    by_contra h
    have : (2 * m + 1) * den + den ≤ 2 * (den * q) := by nlinarith
    omega
  have hge : m ≤ q + 1 := by
    by_contra h
    have : 2 * (den * q) + 4 * den ≤ 2 * m * den := by nlinarith
    omega
  dsimp only
  obtain rfl | rfl : m = q ∨ m = q + 1 := by omega
  · have hhalf : (2 * m + 1) * den = 2 * (den * m) + den := by ring
    rw [if_pos]
    rcases Nat.lt_or_ge (2 * r) den with h | h
    · exact .inl h
    · exact .inr ⟨by omega, hhighTie (by omega)⟩
  · have hhalf : 2 * (q + 1) * den = 2 * (den * q) + 2 * den := by ring
    rw [if_neg]
    rintro (h | ⟨h, heven⟩)
    · omega
    · have hodd := hlowTie (by omega)
      omega

/-- A fraction that is at most a half away from an integer is rounded to it; one that is a half away
only if the integer is even. -/
theorem divNearest_eq {num den m : Nat} (hd : 0 < den) (hlow : (m : ℚ) - 1 / 2 ≤ num / den)
    (hhigh : (num / den : ℚ) ≤ m + 1 / 2)
    (htie : (num / den : ℚ) = m - 1 / 2 ∨ (num / den : ℚ) = m + 1 / 2 → m % 2 = 0) :
    divNearest num den = m := by
  have hden : (0 : ℚ) < den := by exact_mod_cast hd
  rw [le_div_iff₀ hden] at hlow
  rw [div_le_iff₀ hden] at hhigh
  rw [div_eq_iff hden.ne', div_eq_iff hden.ne'] at htie
  apply divNearest_of_le hd
  · have h : (2 * m * den : ℚ) ≤ 2 * num + den := by linarith
    exact_mod_cast h
  · have h : (2 * num : ℚ) ≤ (2 * m + 1) * den := by linarith
    exact_mod_cast h
  · intro h
    have h : (2 * m * den : ℚ) = 2 * num + den := by exact_mod_cast h
    exact htie (.inl (by linarith))
  · intro h
    have h : (2 * num : ℚ) = (2 * m + 1) * den := by exact_mod_cast h
    exact htie (.inr (by linarith))

/-- Rounding to an integer passes none. -/
theorem divNearest_bounds {num den a b : Nat} (hd : 0 < den) (ha : (a : ℚ) ≤ num / den)
    (hb : (num / den : ℚ) < b) : a ≤ divNearest num den ∧ divNearest num den ≤ b := by
  have hden : (0 : ℚ) < den := by exact_mod_cast hd
  have hlow : a ≤ num / den := by
    rw [le_div_iff₀ hden] at ha
    exact (Nat.le_div_iff_mul_le hd).mpr (by exact_mod_cast ha)
  have hhigh : num / den < b := by
    rw [div_lt_iff₀ hden] at hb
    exact (Nat.div_lt_iff_lt_mul hd).mpr (by exact_mod_cast hb)
  unfold divNearest
  dsimp only
  split_ifs <;> omega

/-- Whether a number of quarters lies in an interval. -/
def Interval.Holds (i : Interval) (t : ℚ) : Prop :=
  if i.closed then i.low ≤ t ∧ t ≤ i.high else i.low < t ∧ t < i.high

theorem Interval.contains_iff (i : Interval) {num den : Nat} (hd : 0 < den) :
    i.contains num den ↔ i.Holds (num / den) := by
  have hden : (0 : ℚ) < den := by exact_mod_cast hd
  unfold Interval.contains Interval.Holds
  split_ifs
  · rw [Bool.and_eq_true, decide_eq_true_eq, decide_eq_true_eq, le_div_iff₀ hden, div_le_iff₀ hden]
    norm_cast
  · rw [Bool.and_eq_true, decide_eq_true_eq, decide_eq_true_eq, lt_div_iff₀ hden, div_lt_iff₀ hden]
    norm_cast

namespace Magnitude

/-- The magnitudes of doubles, each in its only form. -/
structure IsDouble (x : Magnitude) : Prop where
  significand_lt : x.significand < 2 ^ 53
  le_exponent : -1074 ≤ x.exponent
  exponent_le : x.exponent ≤ 971
  normal : 2 ^ 52 ≤ x.significand ∨ x.exponent = -1074

/-- Whether a double is the nearest one to a number. -/
def Near (x : Magnitude) (v : ℚ) : Prop :=
  (x.interval double).Holds (v / 2 ^ (x.exponent - 2))

theorem interval_low {x : Magnitude} (hx : 0 < x.significand) :
    ((x.interval double).low : ℚ) =
      4 * x.significand - if x.significand = 2 ^ 52 ∧ -1074 < x.exponent then 1 else 2 := by
  have hcond : (x.significand = Nat.pow 2 (double.precision - 1) ∧ double.minExponent < x.exponent) ↔
      (x.significand = 2 ^ 52 ∧ -1074 < x.exponent) := Iff.rfl
  rw [interval]
  simp only [hcond]
  split_ifs
  · rw [Nat.cast_sub (by omega)]
    push_cast
    ring
  · rw [Nat.cast_sub (by omega)]
    push_cast
    ring

theorem interval_high (x : Magnitude) :
    ((x.interval double).high : ℚ) = 4 * x.significand + 2 := by
  simp [interval]

/-- A double is the nearest one to itself. -/
theorem near_value {x : Magnitude} (hx : 0 < x.significand) : x.Near x.value := by
  have hquarters : x.value / 2 ^ (x.exponent - 2) = 4 * x.significand := by
    rw [value, zpow_sub₀ two_ne_zero]
    field_simp
    norm_num
  have hlow := interval_low hx
  have hlt : ((x.interval double).low : ℚ) < 4 * x.significand := by
    rw [hlow]
    split_ifs <;> linarith
  unfold Near Interval.Holds
  rw [hquarters, interval_high]
  split_ifs
  · exact ⟨hlt.le, by linarith⟩
  · exact ⟨hlt, by linarith⟩

/-- What the interval of a double holds: what is at most half of the last bit away, but for the side
where the next double is half as near, and for the ends where the significand is odd. -/
theorem Near.bounds {x : Magnitude} (hx : 0 < x.significand) {v : ℚ} (h : x.Near v) :
    let t := v / 2 ^ (x.exponent - 2)
    4 * (x.significand : ℚ) - 2 ≤ t ∧ t ≤ 4 * x.significand + 2 ∧
      (t = 4 * x.significand - 2 ∨ t = 4 * x.significand + 2 → x.significand % 2 = 0) ∧
      (x.significand = 2 ^ 52 → -1074 < x.exponent → 4 * (x.significand : ℚ) - 1 ≤ t) := by
  have hclosed : (x.interval double).closed = decide (x.significand % 2 = 0) := rfl
  have hlow := interval_low hx
  intro t
  unfold Near Interval.Holds at h
  simp only [interval_high, hclosed, hlow, decide_eq_true_eq] at h
  split_ifs at h with heven hpower hpower
  · refine ⟨by linarith, h.2, fun _ => heven, fun _ _ => h.1⟩
  · refine ⟨h.1, h.2, fun _ => heven, fun h1 h2 => absurd ⟨h1, h2⟩ hpower⟩
  · refine ⟨by linarith, h.2.le, ?_, fun _ _ => h.1.le⟩
    rintro (ht | ht)
    · linarith
    · linarith
  · refine ⟨h.1.le, h.2.le, ?_, fun h1 h2 => absurd ⟨h1, h2⟩ hpower⟩
    rintro (ht | ht)
    · exact absurd ht h.1.ne'
    · exact absurd ht h.2.ne

theorem Near.pos {x : Magnitude} (hx : 0 < x.significand) {v : ℚ} (h : x.Near v) : 0 < v := by
  obtain ⟨hlow, -⟩ := h.bounds hx
  have hone : (1 : ℚ) ≤ x.significand := by exact_mod_cast hx
  have hquarters : 0 < v / 2 ^ (x.exponent - 2) := by linarith
  exact (div_pos_iff_of_pos_right (by positivity)).mp hquarters

/-- How a fraction is rounded once its exponent and its significand are known. -/
theorem round_eq {num den m : Nat} {e : Int} (hn : 0 < num)
    (he : max (-1074) (binaryExponent num den - 52) = e)
    (hm : divNearest (scaleDown 2 num den e).1 (scaleDown 2 num den e).2 = m) :
    double.round num den =
      let r : Magnitude := if m = 2 ^ 53 then ⟨2 ^ 52, e + 1⟩ else ⟨m, e⟩
      if 971 < r.exponent then none else some r := by
  have he' : max double.minExponent (binaryExponent num den + 1 - double.precision) = e := by
    rw [← he]
    congr 1
    change binaryExponent num den + 1 - 53 = _
    ring
  rw [Format.round, if_neg hn.ne']
  simp only [he', hm]
  rfl

/-- What a fraction is rounded to is a double, and one that is not below the greatest power of two
below the fraction, unless it has fewer bits than others. -/
theorem round_spec {num den : Nat} {x : Magnitude} (hn : 0 < num) (hd : 0 < den)
    (h : double.round num den = some x) :
    x.IsDouble ∧ (-1022 ≤ binaryExponent num den →
      2 ^ 52 ≤ x.significand ∧ binaryExponent num den - 52 ≤ x.exponent) := by
  obtain ⟨hlow, hhigh⟩ := binaryExponent_spec hn hd
  rw [round_eq hn rfl rfl] at h
  generalize he : max (-1074) (binaryExponent num den - 52) = e at h
  have hpos : 0 < (scaleDown 2 num den e).2 := scaleDown_pos (by decide) hd e
  have hscaled := scaleDown_value num den (show 0 < 2 by decide) e
  rw [Nat.cast_ofNat] at hscaled
  have htop : ((scaleDown 2 num den e).1 / (scaleDown 2 num den e).2 : ℚ) < (2 ^ 53 : Nat) := by
    rw [hscaled, div_lt_iff₀ (by positivity)]
    calc (num / den : ℚ) < 2 ^ (binaryExponent num den + 1) := hhigh
      _ ≤ 2 ^ (53 + e) := zpow_le_zpow_right₀ one_le_two (by omega)
      _ = (2 ^ 53 : Nat) * 2 ^ e := by
          rw [zpow_add₀ two_ne_zero]
          norm_num
  have hbottom (hnormal : -1022 ≤ binaryExponent num den) : ((2 ^ 52 : Nat) : ℚ) ≤
      (scaleDown 2 num den e).1 / (scaleDown 2 num den e).2 := by
    rw [hscaled, le_div_iff₀ (by positivity)]
    calc ((2 ^ 52 : Nat) : ℚ) * 2 ^ e = 2 ^ (52 + e) := by
          rw [zpow_add₀ two_ne_zero]
          norm_num
      _ ≤ 2 ^ binaryExponent num den := zpow_le_zpow_right₀ one_le_two (by omega)
      _ ≤ num / den := hlow
  have hle := (divNearest_bounds (a := 0) hpos (by positivity) htop).2
  have hge (hnormal : -1022 ≤ binaryExponent num den) :=
    (divNearest_bounds hpos (hbottom hnormal) htop).1
  generalize divNearest (scaleDown 2 num den e).1 (scaleDown 2 num den e).2 = m at h hle hge
  dsimp only at h
  split_ifs at h with hpower hmax hmax
  · cases h
    exact ⟨⟨by dsimp only; omega, by dsimp only; omega, not_lt.mp hmax, .inl le_rfl⟩,
      fun _ => ⟨le_rfl, by dsimp only; omega⟩⟩
  · cases h
    refine ⟨⟨by dsimp only; omega, by dsimp only; omega, not_lt.mp hmax, ?_⟩,
      fun hnormal => ⟨hge hnormal, by dsimp only; omega⟩⟩
    rcases lt_or_ge (binaryExponent num den) (-1022) with hsmall | hnormal
    · exact .inr (by dsimp only; omega)
    · exact .inl (hge hnormal)

section Quarters

variable {num den m : Nat} {e : Int} {t : ℚ}

/-- The exponent of a fraction that is a number of quarters. -/
theorem le_binaryExponent_iff (hn : 0 < num) (hd : 0 < den)
    (ht : (num / den : ℚ) = t * 2 ^ (e - 2)) (j : Nat) :
    e + j ≤ binaryExponent num den ↔ (2 : ℚ) ^ (j + 2) ≤ t := by
  have hpow : (2 : ℚ) ^ (e + j) = 2 ^ (j + 2) * 2 ^ (e - 2) := by
    rw [← zpow_natCast, ← zpow_add₀ two_ne_zero]
    congr 1
    push_cast
    ring
  rw [← zpow_le_iff hn hd, ht, hpow]
  exact mul_le_mul_iff_of_pos_right (by positivity)

theorem scaleDown_quarters (ht : (num / den : ℚ) = t * 2 ^ (e - 2)) (j : Int) :
    ((scaleDown 2 num den (e - j)).1 : ℚ) / (scaleDown 2 num den (e - j)).2 =
      t * 2 ^ (j - 2) := by
  rw [scaleDown_value num den (by decide), ht, Nat.cast_ofNat, mul_div_assoc,
    ← zpow_sub₀ two_ne_zero]
  congr 2
  ring

/-- A fraction is rounded to the nearest significand of its own exponent. -/
theorem round_within (hn : 0 < num) (hd : 0 < den) (ht : (num / den : ℚ) = t * 2 ^ (e - 2))
    (he : max (-1074) (binaryExponent num den - 52) = e) (he' : e ≤ 971) (hm : m < 2 ^ 53)
    (hlow : 4 * (m : ℚ) - 2 ≤ t) (hhigh : t ≤ 4 * m + 2)
    (htie : t = 4 * m - 2 ∨ t = 4 * m + 2 → m % 2 = 0) :
    double.round num den = some ⟨m, e⟩ := by
  have hscaled := scaleDown_quarters ht 0
  rw [sub_zero] at hscaled
  norm_num at hscaled
  have hdiv : divNearest (scaleDown 2 num den e).1 (scaleDown 2 num den e).2 = m := by
    apply divNearest_eq (scaleDown_pos (by decide) hd e)
    · rw [hscaled]
      linarith
    · rw [hscaled]
      linarith
    · rw [hscaled]
      rintro (h | h)
      · exact htie (.inl (by linarith))
      · exact htie (.inr (by linarith))
  rw [round_eq hn he hdiv, if_neg hm.ne]
  exact if_neg (not_lt.mpr he')

/-- A fraction just below a power of two is rounded up to it, from an exponent that is less by one. -/
theorem round_to_power (hn : 0 < num) (hd : 0 < den) (ht : (num / den : ℚ) = t * 2 ^ (e - 2))
    (he : max (-1074) (binaryExponent num den - 52) = e - 1) (he' : e ≤ 971)
    (hlow : (2 : ℚ) ^ 54 - 1 ≤ t) (hhigh : t < 2 ^ 54) :
    double.round num den = some ⟨2 ^ 52, e⟩ := by
  have hscaled := scaleDown_quarters ht 1
  norm_num at hscaled
  have hdiv : divNearest (scaleDown 2 num den (e - 1)).1 (scaleDown 2 num den (e - 1)).2 =
      2 ^ 53 := by
    apply divNearest_eq (scaleDown_pos (by decide) hd _)
    · rw [hscaled]
      push_cast
      linarith
    · rw [hscaled]
      push_cast
      linarith
    · intro _
      decide
  rw [round_eq hn he hdiv, if_pos rfl]
  dsimp only
  rw [sub_add_cancel]
  exact if_neg (not_lt.mpr he')

end Quarters

/-- A fraction is rounded to the double that is nearest to it. -/
theorem round_of_near {x : Magnitude} (hx : x.IsDouble) (hpos : 0 < x.significand) {num den : Nat}
    (hd : 0 < den) (h : x.Near (num / den)) : double.round num den = some x := by
  obtain ⟨hlow, hhigh, htie, hpower⟩ := h.bounds hpos
  have hlt := hx.significand_lt
  have hle := hx.le_exponent
  have hge := hx.exponent_le
  have hnormal := hx.normal
  have hn : 0 < num := by
    have hden : (0 : ℚ) < den := by exact_mod_cast hd
    have hvalue := (div_pos_iff_of_pos_right hden).mp (h.pos hpos)
    exact_mod_cast hvalue
  obtain ⟨m, e⟩ := x
  dsimp only at hlow hhigh htie hpower hlt hle hge hnormal
  have ht : (num / den : ℚ) = num / den / 2 ^ (e - 2) * 2 ^ (e - 2) :=
    (div_mul_cancel₀ _ (by positivity)).symm
  generalize (num / den : ℚ) / 2 ^ (e - 2) = t at ht hlow hhigh htie hpower
  have hexponent (j : Nat) := le_binaryExponent_iff hn hd ht j
  have htop : ¬ (2 : ℚ) ^ 55 ≤ t := by
    have hm : (m : ℚ) + 1 ≤ 2 ^ 53 := by exact_mod_cast hlt
    rw [not_le]
    linarith
  have hbelow := mt (hexponent 53).mp htop
  rcases le_or_gt ((2 : ℚ) ^ 54) t with hsame | hless
  · have hsame := (hexponent 52).mpr hsame
    exact round_within hn hd ht (by omega) hge hlt hlow hhigh htie
  · have hsmall := mt (hexponent 52).mp (not_le.mpr hless)
    by_cases hmin : e = -1074
    · exact round_within hn hd ht (by omega) hge hlt hlow hhigh htie
    · -- Only the least significand of an exponent is near to what has fewer bits.
      have hpow : m = 2 ^ 52 := by
        by_contra hne
        have hgt : 2 ^ 52 + 1 ≤ m := by omega
        have hgt : (2 : ℚ) ^ 52 + 1 ≤ m := by exact_mod_cast hgt
        linarith
      have hnear := hpower hpow (by omega)
      rw [hpow] at hnear ⊢
      push_cast at hnear
      have hhalf : (2 : ℚ) ^ 53 ≤ t := by linarith
      have hlast := (hexponent 51).mpr hhalf
      exact round_to_power hn hd ht (by omega) hge (by linarith) hless

/-- A number of at most 53 bits, followed by zeros, is a double. -/
theorem exists_round {m k : Nat} (hm : 0 < m) (hm' : m < 2 ^ 53) (hk : k ≤ 971) :
    ∃ y, double.round (m * 2 ^ k) 1 = some y ∧ 0 < y.significand ∧ y.value = m * 2 ^ k := by
  have hlog : m.log2 < 53 := (Nat.log2_lt hm.ne').mpr hm'
  obtain ⟨j, hj⟩ : ∃ j, m.log2 + j = 52 := ⟨52 - m.log2, by omega⟩
  have hlow : 2 ^ 52 ≤ m * 2 ^ j := by
    rw [← hj, Nat.pow_add]
    exact Nat.mul_le_mul_right _ (Nat.log2_self_le hm.ne')
  have hhigh : m * 2 ^ j < 2 ^ 53 := by
    have h : 2 ^ 53 = 2 ^ (m.log2 + 1) * 2 ^ j := by
      rw [← Nat.pow_add]
      congr 1
      omega
    rw [h]
    exact Nat.mul_lt_mul_of_pos_right Nat.lt_log2_self (Nat.pow_pos (by decide))
  have hy : IsDouble ⟨m * 2 ^ j, k - j⟩ := by
    refine ⟨hhigh, ?_, ?_, .inl hlow⟩
    · dsimp only
      omega
    · dsimp only
      omega
  have hpos : 0 < m * 2 ^ j := Nat.mul_pos hm (Nat.pow_pos (by decide))
  have hvalue : value ⟨m * 2 ^ j, k - j⟩ = m * 2 ^ k := by
    rw [value]
    push_cast
    rw [mul_assoc, ← zpow_natCast, ← zpow_add₀ two_ne_zero, add_sub_cancel, zpow_natCast]
  have hnear := near_value (x := ⟨m * 2 ^ j, k - j⟩) hpos
  have hfraction : ((m * 2 ^ k : Nat) / (1 : Nat) : ℚ) = m * 2 ^ k := by
    push_cast
    ring
  rw [hvalue, ← hfraction] at hnear
  exact ⟨_, round_of_near hy hpos Nat.one_pos hnear, hpos, hvalue⟩

/-- A number has one nearest double at most. -/
theorem Near.unique {x y : Magnitude} (hx : x.IsDouble) (hxpos : 0 < x.significand)
    (hy : y.IsDouble) (hypos : 0 < y.significand) {v : ℚ} (hxv : x.Near v) (hyv : y.Near v) :
    x = y := by
  have hfraction : (v.num.toNat / v.den : ℚ) = v := by
    have hnum : ((v.num.toNat : Int) : ℚ) = v.num := by
      rw [Int.toNat_of_nonneg (Rat.num_nonneg.mpr (hxv.pos hxpos).le)]
    rw [← Int.cast_natCast, hnum, Rat.num_div_den]
  rw [← hfraction] at hxv hyv
  have h := round_of_near hx hxpos v.den_pos hxv
  rw [round_of_near hy hypos v.den_pos hyv] at h
  exact (Option.some.inj h).symm

end Magnitude

end CaseUpdate.Decimal
