import CaseUpdate.Proofs.Decimal.Positional
import CaseUpdate.Proofs.Json.Numbers

namespace CaseUpdate.Json

open Decimal (Magnitude Scientific AllDigits digitsValue double joined allDigits_toDigits)

section Parts

theorem readInteger_exponent (e : Int) :
    Decimal.readInteger ((if e < 0 then '-' else '+') :: Nat.toDigits 10 e.natAbs) = some e := by
  have hdigits : Decimal.readDigits (Nat.toDigits 10 e.natAbs) = some e.natAbs := by
    have hall : (Nat.toDigits 10 e.natAbs).all Char.isDigit :=
      List.all_eq_true.mpr (allDigits_toDigits _)
    rw [Decimal.readDigits, if_pos ⟨Nat.toDigits_ne_nil, hall⟩]
    exact congrArg some Nat.ofDigitChars_ten_toDigits
  unfold Decimal.readInteger
  split_ifs with h
  · have hsign : Decimal.splitSign ('-' :: Nat.toDigits 10 e.natAbs) =
        (true, Nat.toDigits 10 e.natAbs) := rfl
    have hvalue : -(e.natAbs : Int) = e := by omega
    simp only [hsign, hdigits, if_true]
    exact congrArg some hvalue
  · have hsign : Decimal.splitSign ('+' :: Nat.toDigits 10 e.natAbs) =
        (false, Nat.toDigits 10 e.natAbs) := rfl
    have hvalue : (e.natAbs : Int) = e := by omega
    simp only [hsign, hdigits, Bool.false_eq_true, if_false]
    exact congrArg some hvalue

theorem splitExponent_letter (e : Int) :
    splitExponent ('e' :: (if e < 0 then '-' else '+') :: Nat.toDigits 10 e.natAbs) =
      some (some e) := by
  rw [splitExponent, if_pos (.inl rfl), readInteger_exponent]
  rfl

/-- Digits with a point among them are read with whatever exponent follows. -/
theorem read_joined {whole fraction rest : List Char} {exponent : Option Int} (negative : Bool)
    (hw : AllDigits whole) (hne : whole ≠ []) (hzero : whole.head? = some '0' → whole = ['0'])
    (hf : AllDigits fraction) (hrest : ∀ c ∈ rest.head?, c.isDigit = false ∧ c ≠ '.')
    (hexponent : splitExponent rest = some exponent) :
    Written.read (Decimal.signed negative (joined whole fraction ++ rest)) =
      some ⟨negative, whole, fraction, exponent⟩ := by
  unfold joined
  split_ifs with hfraction
  · have hpoint : splitPoint rest = some ([], rest) := by
      unfold splitPoint
      split
      · exact absurd rfl (hrest '.' rfl).2
      · rfl
    rw [hfraction]
    exact Written.read_signed negative hw hne hzero (fun c hc => (hrest c hc).1) hpoint hexponent
  · have hpoint : splitPoint ('.' :: (fraction ++ rest)) = some (fraction, rest) := by
      obtain ⟨htake, hdrop⟩ := takeWhile_digits hf fun c hc => (hrest c hc).1
      simp only [splitPoint, htake, hdrop, if_neg hfraction]
    rw [List.append_assoc, List.cons_append]
    exact Written.read_signed negative hw hne hzero (by simp) hpoint hexponent

end Parts

/-- Whether a text is read as the parts of a real: a decimal, whose digits may be followed by so many
zeros, and its sign. -/
structure Reads (text : List Char) (negative : Bool) (s : Scientific) (zeros : Nat) (w : Written) :
    Prop where
  read : Written.read (Decimal.signed negative text) = some w
  negative : w.negative = negative
  isReal : w.fraction ≠ [] ∨ w.exponent ≠ none
  digits : digitsValue (w.whole ++ w.fraction) = digitsValue s.digits * 10 ^ zeros
  exponent : w.exponent.getD 0 - w.fraction.length = s.last - zeros

section Layouts

variable {s : Scientific} (hs : AllDigits s.digits) (hne : s.digits ≠ [])
  (hhead : s.digits.head? ≠ some '0') (negative : Bool)

include hs hne hhead

theorem reads_exponential : ∃ w, Reads s.exponential negative s 0 w := by
  have hchars : s.exponential = joined (s.digits.take 1) (s.digits.drop 1) ++
      'e' :: (if s.exponent < 0 then '-' else '+') :: Nat.toDigits 10 s.exponent.natAbs := by
    unfold Scientific.exponential joined
    cases s.digits.drop 1 <;> simp
  have hread := read_joined negative (hs.sublist (List.take_sublist 1 _)) (by simp [hne])
    (fun hzero => by
      rw [List.head?_take, if_neg (by decide)] at hzero
      exact absurd hzero hhead)
    (hs.sublist (List.drop_sublist 1 _)) (by simp) (splitExponent_letter s.exponent)
  have hlength := List.length_pos_iff.mpr hne
  refine ⟨⟨negative, s.digits.take 1, s.digits.drop 1, some s.exponent⟩, ?_, rfl, .inr (by simp),
    ?_, ?_⟩
  · rw [hchars, hread]
  · rw [List.take_append_drop, Nat.pow_zero, Nat.mul_one]
  · rw [Option.getD_some, List.length_drop, Scientific.last]
    omega

theorem reads_pointed : ∃ zeros w, Reads s.pointed negative s zeros w ∧
    (zeros = 0 ∨ zeros = s.last + 1) := by
  obtain ⟨whole, fraction, h⟩ := Scientific.exists_parts hs hne hhead
  have hend : splitExponent [] = some none := rfl
  by_cases hfraction : fraction = []
  · -- A point and a zero follow an integer.
    have hlast : 0 ≤ s.last := by
      have hlength := h.length
      rw [hfraction, List.length_nil] at hlength
      omega
    have hchars : s.pointed = joined whole ['0'] := by
      have hcond : ¬ (s.exponent < 0 ∨ s.exponent.toNat + 1 < s.digits.length) := by
        rw [Scientific.last] at hlast
        have hlength := List.length_pos_iff.mpr hne
        omega
      rw [Scientific.pointed, if_neg hcond, h.text, hfraction, joined, joined, if_pos rfl,
        if_neg (List.cons_ne_nil _ _)]
    have hzero : AllDigits ['0'] := by simp [AllDigits]
    have hread := read_joined negative h.whole_digits h.ne_nil h.head hzero (by simp) hend
    refine ⟨s.last.toNat + 1, ⟨negative, whole, ['0'], none⟩, ⟨?_, rfl, .inl (by simp), ?_, ?_⟩,
      .inr (by omega)⟩
    · rw [hchars, ← hread, List.append_nil]
    · have hvalue := h.value
      rw [hfraction, List.append_nil] at hvalue
      rw [Decimal.digitsValue_append, hvalue, pow_succ, mul_assoc]
      rfl
    · simp only [Option.getD_none, List.length_singleton]
      omega
  · have hlast : s.last < 0 := by
      have hlength := h.length
      have hpos := List.length_pos_iff.mpr hfraction
      omega
    have hchars : s.pointed = joined whole fraction := by
      have hcond : s.exponent < 0 ∨ s.exponent.toNat + 1 < s.digits.length := by
        rw [Scientific.last] at hlast
        omega
      rw [Scientific.pointed, if_pos hcond, h.text]
    have hread := read_joined negative h.whole_digits h.ne_nil h.head h.fraction_digits (by simp)
      hend
    refine ⟨0, ⟨negative, whole, fraction, none⟩, ⟨?_, rfl, .inl hfraction, ?_, ?_⟩, .inl rfl⟩
    · rw [hchars, ← hread, List.append_nil]
    · have hvalue := h.value
      rwa [Int.toNat_of_nonpos hlast.le] at hvalue
    · have hlength := h.length
      simp only [Option.getD_none]
      omega

end Layouts

section Words

theorem takeDigits_eq {n : Nat} {s : List Char}
    (h : Nat.ofDigitChars 10 s n < 0x10000000000000000) :
    takeDigits n s = (Nat.ofDigitChars 10 s n, []) := by
  induction s generalizing n with
  | nil => rfl
  | cons c s ih =>
    have hzero : '0'.toNat = 48 := rfl
    rw [Nat.ofDigitChars_cons, hzero] at h ⊢
    have hle : 10 * n + (c.toNat - 48) < 0x10000000000000000 := by
      rw [Nat.ofDigitChars_eq_ofDigitChars_zero] at h
      have hpos : 0 < 10 ^ s.length := Nat.pow_pos (by decide)
      nlinarith
    rw [takeDigits, if_pos hle, ih h]

/-- A number whose digits fit a word is scaled from all of them. -/
theorem Written.real_eq {w : Written}
    (h : digitsValue (w.whole ++ w.fraction) < 0x10000000000000000) :
    w.real = (scaled (digitsValue (w.whole ++ w.fraction))
      (w.exponent.getD 0 - w.fraction.length)).map (.real w.negative) := by
  have hfraction : Nat.ofDigitChars 10 w.fraction (digitsValue w.whole) =
      digitsValue (w.whole ++ w.fraction) := (Nat.ofDigitChars_append 0).symm
  have hwhole : digitsValue w.whole < 0x10000000000000000 := by
    rw [Decimal.digitsValue_append] at h
    have hpos : 0 < 10 ^ w.fraction.length := Nat.pow_pos (by decide)
    nlinarith
  have hrest := takeDigits_eq (hfraction.trans_lt h)
  rw [hfraction] at hrest
  have htake : takeDigits 0 w.whole = (digitsValue w.whole, []) := takeDigits_eq hwhole
  rw [Written.real]
  simp only [htake, hrest, List.length_nil]
  congr 2
  omega

end Words

section Scaling

/-- The powers of ten that are doubles. -/
theorem exists_powerOfTen {k : Nat} (hk : k ≤ 22) :
    ∃ p, powerOfTen k = some p ∧ 0 < p.significand ∧ p.value = 10 ^ k := by
  have hfive : 5 ^ k < 2 ^ 53 := (Nat.pow_le_pow_right (by decide) hk).trans_lt (by decide)
  obtain ⟨p, hp, hpos, hvalue⟩ :=
    Magnitude.exists_round (m := 5 ^ k) (k := k) (Nat.pow_pos (by decide)) hfive (by omega)
  have hten : 5 ^ k * 2 ^ k = 10 ^ k := by rw [← Nat.mul_pow]
  refine ⟨p, ?_, hpos, ?_⟩
  · rw [powerOfTen, Nat.pow_eq, ← hten]
    exact hp
  · rw [hvalue]
    exact_mod_cast hten

/-- One rounding of a double and a power of ten that is one too gives the nearest double. -/
theorem scaled_eq {m k : Nat} {e : Int} {x : Magnitude} (hm : 0 < m) (hm' : m < 2 ^ 53)
    (hk : k ≤ 971) (he : -22 ≤ e) (he' : e ≤ 22) (hx : x.IsDouble) (hpos : 0 < x.significand)
    (hnear : x.Near ((m * 2 ^ k : Nat) * 10 ^ e)) : scaled (m * 2 ^ k) e = some x := by
  obtain ⟨y, hy, hypos, hyvalue⟩ := Magnitude.exists_round hm hm' hk
  rw [scaled, hy]
  simp only [Option.bind_eq_bind, Option.bind_some]
  have hyvalue : (m * 2 ^ k : Nat) = y.value := by
    rw [hyvalue]
    push_cast
    rfl
  rw [hyvalue, ← y.ratio_value] at hnear
  rcases lt_or_ge e 0 with hneg | hneg
  · obtain ⟨j, rfl⟩ : ∃ j : Nat, e = -j := ⟨(-e).toNat, by omega⟩
    have hj : j ≤ 22 := by omega
    obtain ⟨p, hp, hppos, hpvalue⟩ := exists_powerOfTen hj
    have hden : 0 < y.ratio.2 * p.ratio.1 := Nat.mul_pos y.ratio_pos (Magnitude.ratio_fst_pos hppos)
    rw [if_pos hneg, neg_neg, Int.toNat_natCast, divideByPower, if_pos (by omega), hp, Option.bind_eq_bind,
      Option.bind_some, Magnitude.dividedBy]
    refine Magnitude.round_of_near hx hpos hden ?_
    rw [zpow_neg, zpow_natCast, ← hpvalue, ← p.ratio_value] at hnear
    push_cast
    rwa [mul_div_mul_comm, ← inv_div (p.ratio.1 : ℚ)]
  · obtain ⟨j, rfl⟩ : ∃ j : Nat, e = j := ⟨e.toNat, by omega⟩
    have hj : j ≤ 22 := by omega
    obtain ⟨p, hp, hppos, hpvalue⟩ := exists_powerOfTen hj
    rw [if_neg (not_lt.mpr hneg), if_pos (by omega), Int.toNat_natCast, hp, Option.bind_some,
      Magnitude.times]
    refine Magnitude.round_of_near hx hpos (Nat.mul_pos y.ratio_pos p.ratio_pos) ?_
    rw [zpow_natCast, ← hpvalue, ← p.ratio_value] at hnear
    push_cast
    rwa [mul_div_mul_comm]

end Scaling

theorem reads_json {x : Magnitude} (hx : x.IsDouble) (hpos : 0 < x.significand) (negative : Bool) :
    let s := x.shortest double .even
    ∃ zeros w, Reads x.json negative s zeros w ∧
      (zeros = 0 ∨ (zeros = s.last + 1 ∧ s.exponent ≤ 15)) := by
  intro s
  have hs : AllDigits s.digits := x.allDigits_shortest double .even
  obtain ⟨-, hne, hhead⟩ := Magnitude.shortest_spec .even hx hpos
  have hjson : x.json = if s.exponent < -5 ∨ 15 < s.exponent then s.exponential else s.pointed := by
    rw [Magnitude.json, Magnitude.jsonIn, if_neg hpos.ne']
  rw [hjson]
  split_ifs with h
  · obtain ⟨w, hw⟩ := reads_exponential hs hne hhead negative
    exact ⟨0, w, hw, .inl rfl⟩
  · obtain ⟨zeros, w, hw, hzeros⟩ := reads_pointed hs hne hhead negative
    exact ⟨zeros, w, hw, hzeros.imp_right fun hz => ⟨hz, by omega⟩⟩

/-- Whether a decimal is one that a real is read from in one rounding: no more than fifteen digits,
the last of which counts a power of ten that is a double, or the inverse of one. The digits before a
point that stands after sixteen of them may be too many. -/
structure IsShort (s : Scientific) : Prop where
  length_le : s.digits.length ≤ 15
  le_last : -22 ≤ s.last
  last_le : s.last ≤ 22
  exponent_ne : s.exponent ≠ 15

/-- The digits of a short decimal as they are written, with a zero after the point that follows an
integer, are a double. -/
theorem IsShort.exists_bits {s : Scientific} (h : IsShort s) (hs : AllDigits s.digits)
    (hne : digitsValue s.digits ≠ 0) {zeros : Nat}
    (hzeros : zeros = 0 ∨ (zeros = s.last + 1 ∧ s.exponent ≤ 15)) :
    ∃ m k, digitsValue s.digits * 10 ^ zeros = m * 2 ^ k ∧ 0 < m ∧ m < 2 ^ 53 ∧ k ≤ 1 := by
  have hlength := h.length_le
  have hvalue := Decimal.digitsValue_lt hs
  have hpos := Nat.pos_of_ne_zero hne
  have hle : 10 ^ s.digits.length ≤ 10 ^ 15 := Nat.pow_le_pow_right (by decide) hlength
  rcases Nat.eq_zero_or_pos zeros with rfl | hzero
  · exact ⟨digitsValue s.digits, 0, by simp, hpos, by omega, by omega⟩
  · obtain ⟨hzeros, hexponent⟩ := hzeros.resolve_left hzero.ne'
    obtain ⟨j, rfl⟩ := Nat.exists_eq_succ_of_ne_zero hzero.ne'
    have hlast : s.last = s.exponent + 1 - s.digits.length := rfl
    have hexponent' := h.exponent_ne
    have hbound : digitsValue s.digits * 10 ^ j < 10 ^ 15 := by
      calc digitsValue s.digits * 10 ^ j
          < 10 ^ s.digits.length * 10 ^ j := by gcongr
        _ = 10 ^ (s.digits.length + j) := by rw [Nat.pow_add]
        _ ≤ 10 ^ 15 := Nat.pow_le_pow_right (by decide) (by omega)
    refine ⟨digitsValue s.digits * 10 ^ j * 5, 1, ?_, by positivity, by omega, le_rfl⟩
    rw [Nat.pow_succ, Nat.pow_one, ← Nat.mul_assoc, Nat.mul_assoc _ 5 2]

/-- A double whose digits are few is read from them. -/
theorem reread_of_short {x : Magnitude} (negative : Bool) (hx : x.IsDouble)
    (h : x.significand = 0 ∨ IsShort (x.shortest double .even)) :
    (Number.real negative x).reread = some (.real negative x) := by
  rcases Nat.eq_zero_or_pos x.significand with hzero | hpos
  · have hexponent : x.exponent = double.minExponent := by
      have hnormal := hx.normal
      rw [hzero] at hnormal
      exact hnormal.resolve_left (by decide)
    obtain ⟨significand, exponent⟩ := x
    cases hzero
    cases hexponent
    exact reread_zero negative
  · have hshort := h.resolve_left hpos.ne'
    have hs : AllDigits (x.shortest double .even).digits := x.allDigits_shortest double .even
    obtain ⟨hnear, -⟩ := Magnitude.shortest_spec .even hx hpos
    obtain ⟨zeros, w, hw, hzeros⟩ := reads_json hx hpos negative
    generalize x.shortest double .even = s at hshort hs hnear hw hzeros
    have hne : digitsValue s.digits ≠ 0 := by
      intro hzero
      have hvalue := hnear.pos hpos
      rw [Scientific.value, hzero] at hvalue
      simp at hvalue
    obtain ⟨m, k, hbits, hm, hm', hk⟩ := hshort.exists_bits hs hne hzeros
    have hdigits := hw.digits.trans hbits
    have hword : digitsValue (w.whole ++ w.fraction) < 0x10000000000000000 := by
      have hle : 2 ^ k ≤ 2 ^ 1 := Nat.pow_le_pow_right (by decide) hk
      rw [hdigits]
      nlinarith
    have hlast := hshort.le_last
    have hlast' := hshort.last_le
    have hvalue : ((m * 2 ^ k : Nat) * 10 ^ (s.last - zeros) : ℚ) = s.value := by
      rw [← hbits, Scientific.value, zpow_sub₀ (by norm_num), zpow_natCast]
      push_cast
      field_simp
    have hscaled : scaled (m * 2 ^ k) (s.last - zeros) = some x := by
      apply scaled_eq hm hm' (by omega) (by omega) (by omega) hx hpos
      rwa [hvalue]
    rw [Number.reread, Number.chars, hw.read, Option.bind_some, Written.number, if_pos hw.isReal,
      Written.real_eq hword, hdigits, hw.exponent, hscaled, hw.negative]
    rfl

end CaseUpdate.Json
