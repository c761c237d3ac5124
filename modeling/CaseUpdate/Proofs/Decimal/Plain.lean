import CaseUpdate.Proofs.Decimal.Positional

namespace CaseUpdate.Decimal

theorem joined_inj {whole fraction whole' fraction' : List Char} (hw : AllDigits whole)
    (hf : AllDigits fraction) (hw' : AllDigits whole') (hf' : AllDigits fraction')
    (h : joined whole fraction = joined whole' fraction') :
    whole = whole' ∧ fraction = fraction' := by
  have hsplit (whole fraction : List Char) (hw : AllDigits whole) (hf : AllDigits fraction) :
      (joined whole fraction).takeWhile Char.isDigit = whole ∧
        ((joined whole fraction).dropWhile Char.isDigit).drop 1 = fraction := by
    unfold joined
    split_ifs with hnil
    · have hparts := IsFraction.takeWhile_append (.inl rfl) hw
      rw [List.append_nil] at hparts
      rw [hparts.1, hparts.2, hnil]
      exact ⟨rfl, rfl⟩
    · have hparts := IsFraction.takeWhile_append (.inr ⟨fraction, hf, rfl⟩) hw
      rw [hparts.1, hparts.2]
      exact ⟨rfl, rfl⟩
  obtain ⟨hwhole, hfraction⟩ := hsplit whole fraction hw hf
  rw [h] at hwhole hfraction
  obtain ⟨hwhole', hfraction'⟩ := hsplit whole' fraction' hw' hf'
  exact ⟨hwhole.symm.trans hwhole', hfraction.symm.trans hfraction'⟩

namespace Scientific

variable {s : Scientific} {whole fraction : List Char}

theorem Parts.value_eq (h : s.Parts whole fraction) :
    s.value = digitsValue (whole ++ fraction) / 10 ^ fraction.length := by
  have hlast : s.last = (s.last.toNat : Int) - ((-s.last).toNat : Int) := by omega
  rw [h.value, h.length, Scientific.value, hlast, zpow_sub₀ (by norm_num), zpow_natCast,
    zpow_natCast, ← hlast]
  push_cast
  ring

/-- The number that digits stand for can be told from their positional layout. -/
theorem value_eq_of_positional (hs : AllDigits s.digits) (hne : s.digits ≠ [])
    (hhead : s.digits.head? ≠ some '0') (hw : AllDigits whole) (hf : AllDigits fraction)
    (h : s.positional = joined whole fraction) :
    s.value = digitsValue (whole ++ fraction) / 10 ^ fraction.length := by
  obtain ⟨_, _, hparts⟩ := exists_parts hs hne hhead
  obtain ⟨rfl, rfl⟩ := joined_inj hparts.whole_digits hparts.fraction_digits hw hf
    (hparts.text.symm.trans h)
  exact hparts.value_eq

end Scientific

namespace Magnitude

variable {x y : Magnitude}

theorem plain_eq (hpos : 0 < x.significand) : x.plain = (x.shortest double .up).positional :=
  if_neg hpos.ne'

/-- No double but the nearest one has the digits of an integer. -/
theorem near_of_plain (hx : x.IsDouble) (hpos : 0 < x.significand) {n : Nat}
    (h : x.plain = Nat.toDigits 10 n) : x.Near n := by
  obtain ⟨hnear, hne, hhead⟩ := shortest_spec .up hx hpos
  have hjoined : (x.shortest double .up).positional = joined (Nat.toDigits 10 n) [] := by
    rw [← plain_eq hpos, h]
    rfl
  have hvalue := Scientific.value_eq_of_positional (x.allDigits_shortest double .up) hne hhead
    (allDigits_toDigits n) (by simp [AllDigits]) hjoined
  have hdigits : digitsValue (Nat.toDigits 10 n) = n := Nat.ofDigitChars_ten_toDigits
  rw [hvalue, List.append_nil, hdigits] at hnear
  simpa using hnear

/-- Doubles are told apart by their plain text. -/
theorem plain_inj (hx : x.IsDouble) (hxpos : 0 < x.significand) (hy : y.IsDouble)
    (hypos : 0 < y.significand) (h : x.plain = y.plain) : x = y := by
  obtain ⟨hxnear, hxne, hxhead⟩ := shortest_spec .up hx hxpos
  obtain ⟨hynear, hyne, hyhead⟩ := shortest_spec .up hy hypos
  obtain ⟨_, _, hparts⟩ :=
    Scientific.exists_parts (y.allDigits_shortest double .up) hyne hyhead
  rw [plain_eq hxpos, plain_eq hypos, hparts.text] at h
  have hvalue := Scientific.value_eq_of_positional (x.allDigits_shortest double .up) hxne hxhead
    hparts.whole_digits hparts.fraction_digits h
  rw [← hparts.value_eq] at hvalue
  exact Near.unique hx hxpos hy hypos hxnear (hvalue ▸ hynear)

end Magnitude

section Integers

variable {n n' : Int}

/-- The double nearest to an integer that only a word without a sign holds. -/
theorem Double.ofInt_great (hlow : 0x8000000000000000 ≤ n) (hhigh : n < 0x10000000000000000) :
    ∃ x, Double.ofInt n = .finite false x ∧ x.IsDouble ∧ 2 ^ 52 ≤ x.significand ∧
      11 ≤ x.exponent := by
  obtain ⟨k, rfl⟩ := Int.eq_ofNat_of_zero_le (show 0 ≤ n by omega)
  have hk : 0 < k := by omega
  have hexponent : binaryExponent k 1 = 63 := by
    have hle : (2 : ℚ) ^ (63 : Int) ≤ k / (1 : Nat) := by
      have h : 2 ^ 63 ≤ k := by omega
      rw [Nat.cast_one, div_one]
      exact_mod_cast h
    have hlt : ¬ (2 : ℚ) ^ (64 : Int) ≤ k / (1 : Nat) := by
      have h : k < 2 ^ 64 := by omega
      rw [Nat.cast_one, div_one, not_le]
      exact_mod_cast h
    rw [zpow_le_iff hk Nat.one_pos] at hle hlt
    omega
  obtain ⟨x, hx⟩ : ∃ x, double.round k 1 = some x := by
    have hmax : max (-1074) ((63 : Int) - 52) = 11 := rfl
    rw [Magnitude.round_eq hk (hexponent ▸ hmax) rfl]
    dsimp only
    split_ifs with hpower hrange hrange
    · exact absurd hrange (show ¬ (971 : Int) < 11 + 1 by decide)
    · exact ⟨_, rfl⟩
    · exact absurd hrange (show ¬ (971 : Int) < 11 by decide)
    · exact ⟨_, rfl⟩
  obtain ⟨hdouble, hgreat⟩ := Magnitude.round_spec hk Nat.one_pos hx
  rw [hexponent] at hgreat
  refine ⟨x, ?_, hdouble, hgreat (by decide)⟩
  have hsign : decide ((k : Int) < 0) = false := by simp
  rw [Double.ofInt, Double.ofFraction, hsign, Int.natAbs_natCast, hx]
  rfl

/-- Beyond the least of the doubles that no signed word holds, all numbers near to one are that
great. -/
theorem Magnitude.Near.great {x : Magnitude} (hnormal : 2 ^ 52 ≤ x.significand)
    (hexponent : 11 ≤ x.exponent) (hleast : x ≠ ⟨2 ^ 52, 11⟩) {v : ℚ} (h : x.Near v) :
    2 ^ 63 ≤ v := by
  obtain ⟨hbound, -⟩ := h.bounds (by omega)
  rw [le_div_iff₀ (by positivity)] at hbound
  have hsignificand : (2 : ℚ) ^ 52 ≤ x.significand := by exact_mod_cast hnormal
  rcases hexponent.eq_or_lt with heleven | htwelve
  · have hnext : (2 : ℚ) ^ 52 + 1 ≤ x.significand := by
      have hne : x.significand ≠ 2 ^ 52 := by
        intro heq
        apply hleast
        rw [← heq, heleven]
      exact_mod_cast Nat.succ_le_of_lt (hnormal.lt_of_ne' hne)
    have hquarter : (2 : ℚ) ^ (x.exponent - 2) = 512 := by
      rw [← heleven]
      norm_num
    rw [hquarter] at hbound
    linarith
  · have hquarter : (1024 : ℚ) ≤ 2 ^ (x.exponent - 2) := by
      calc (1024 : ℚ) = 2 ^ (10 : Int) := by norm_num
        _ ≤ 2 ^ (x.exponent - 2) := zpow_le_zpow_right₀ one_le_two (by omega)
    nlinarith

/-- No integer that a signed word holds has the digits of the double nearest to one that is greater
than all of these. -/
theorem integerChars_ne_plain (h : isWord n) (hlow : 0x8000000000000000 ≤ n')
    (hhigh : n' < 0x10000000000000000) : Json.integerChars n ≠ (Double.ofInt n').plain := by
  obtain ⟨x, hx, hdouble, hnormal, hexponent⟩ := Double.ofInt_great hlow hhigh
  have hpos : 0 < x.significand := by omega
  have hword : n < 0x8000000000000000 := (of_decide_eq_true h).2
  have hplain : (Double.ofInt n').plain = x.plain := by
    rw [hx]
    rfl
  rw [hplain]
  intro heq
  have hsign : ¬ n < 0 := by
    intro hneg
    obtain ⟨c, rest, hc, hdigit⟩ := x.isPositional_plain.head
    rw [Json.integerChars, decide_eq_true hneg, hc] at heq
    cases heq
    exact absurd hdigit (by decide)
  rw [Json.integerChars, decide_eq_false hsign] at heq
  have hnear : x.Near n.natAbs := Magnitude.near_of_plain hdouble hpos heq.symm
  by_cases hleast : x = ⟨2 ^ 52, 11⟩
  · -- The digits of the least of these doubles are those of a greater number.
    have hdigits : (⟨2 ^ 52, 11⟩ : Magnitude).plain = "9223372036854776000".toList := by
      decide +kernel
    have hvalue := congrArg digitsValue (heq.trans (hleast ▸ hdigits))
    have hn : digitsValue (Nat.toDigits 10 n.natAbs) = n.natAbs := Nat.ofDigitChars_ten_toDigits
    have hgreat : digitsValue "9223372036854776000".toList = 9223372036854776000 := by
      decide +kernel
    rw [hgreat] at hvalue
    have hself := hn.symm.trans hvalue
    omega
  · have hgreat := hnear.great hnormal hexponent hleast
    have hnat : 2 ^ 63 ≤ n.natAbs := by exact_mod_cast hgreat
    omega

/-- Integers that only a word without a sign holds have the same digits if they have the same nearest
double. -/
theorem Double.ofInt_plain_inj (hlow : 0x8000000000000000 ≤ n) (hhigh : n < 0x10000000000000000)
    (hlow' : 0x8000000000000000 ≤ n') (hhigh' : n' < 0x10000000000000000)
    (h : (Double.ofInt n).plain = (Double.ofInt n').plain) : Double.ofInt n = Double.ofInt n' := by
  obtain ⟨x, hx, hxdouble, hxpos, -⟩ := Double.ofInt_great hlow hhigh
  obtain ⟨y, hy, hydouble, hypos, -⟩ := Double.ofInt_great hlow' hhigh'
  rw [hx, hy] at h ⊢
  rw [Magnitude.plain_inj hxdouble (by omega) hydouble (by omega) h]

end Integers

end CaseUpdate.Decimal
