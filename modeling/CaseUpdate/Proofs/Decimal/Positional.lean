import CaseUpdate.Proofs.Decimal.Shortest

namespace CaseUpdate.Decimal

/-- Digits with a point before the fraction, if there is one. -/
def joined (whole fraction : List Char) : List Char :=
  if fraction = [] then whole else whole ++ '.' :: fraction

/-- What digits in positional layout consist of: digits before the point without a needless zero, and
as many digits after it as the last one asks for. -/
structure Scientific.Parts (s : Scientific) (whole fraction : List Char) : Prop where
  text : s.positional = joined whole fraction
  whole_digits : AllDigits whole
  fraction_digits : AllDigits fraction
  ne_nil : whole ≠ []
  head : whole.head? = some '0' → whole = ['0']
  value : digitsValue (whole ++ fraction) = digitsValue s.digits * 10 ^ s.last.toNat
  length : fraction.length = (-s.last).toNat

namespace Scientific

variable {s : Scientific}

theorem parts_of_small (hs : AllDigits s.digits) (hne : s.digits ≠ []) (h : s.exponent < 0) :
    s.Parts ['0'] (zeros (-s.exponent - 1).toNat ++ s.digits) where
  text := by
    rw [positional, if_pos h, joined, if_neg (by simp [hne])]
    rfl
  whole_digits := by simp [AllDigits]
  fraction_digits := (allDigits_zeros _).append hs
  ne_nil := List.cons_ne_nil _ _
  head _ := rfl
  value := by
    have hlast : s.last.toNat = 0 := by
      rw [last]
      omega
    have hzero : digitsValue ['0'] = 0 := rfl
    rw [← List.append_assoc, digitsValue_append, digitsValue_append_zeros, hlast, hzero,
      Nat.zero_mul, Nat.zero_mul, Nat.zero_add, Nat.pow_zero, Nat.mul_one]
  length := by
    have hpos := List.length_pos_iff.mpr hne
    rw [List.length_append, zeros, List.length_replicate, last]
    omega

theorem parts_of_whole (hs : AllDigits s.digits) (hne : s.digits ≠ [])
    (hhead : s.digits.head? ≠ some '0') (hexponent : 0 ≤ s.exponent)
    (h : s.digits.length ≤ s.exponent.toNat + 1) :
    s.Parts (s.digits ++ zeros (s.exponent.toNat + 1 - s.digits.length)) [] where
  text := by
    simp [positional, joined, not_lt.mpr hexponent, h]
  whole_digits := hs.append (allDigits_zeros _)
  fraction_digits := by simp [AllDigits]
  ne_nil := by simp [hne]
  head hzero := by
    rw [List.head?_append_of_ne_nil _ hne] at hzero
    exact absurd hzero hhead
  value := by
    rw [List.append_nil, digitsValue_append_zeros, last]
    congr 2
    omega
  length := by
    rw [List.length_nil, last]
    omega

theorem parts_of_long (hs : AllDigits s.digits) (hne : s.digits ≠ [])
    (hhead : s.digits.head? ≠ some '0') (hexponent : 0 ≤ s.exponent)
    (h : s.exponent.toNat + 1 < s.digits.length) :
    s.Parts (s.digits.take (s.exponent.toNat + 1)) (s.digits.drop (s.exponent.toNat + 1)) where
  text := by
    simp [positional, joined, not_lt.mpr hexponent, not_le.mpr h]
  whole_digits := hs.sublist (List.take_sublist _ _)
  fraction_digits := hs.sublist (List.drop_sublist _ _)
  ne_nil := by simp [hne]
  head hzero := by
    rw [List.head?_take, if_neg (Nat.succ_ne_zero _)] at hzero
    exact absurd hzero hhead
  value := by
    have hlast : s.last.toNat = 0 := by
      rw [last]
      omega
    rw [List.take_append_drop, hlast, Nat.pow_zero, Nat.mul_one]
  length := by
    rw [List.length_drop, last]
    omega

theorem exists_parts (hs : AllDigits s.digits) (hne : s.digits ≠ [])
    (hhead : s.digits.head? ≠ some '0') : ∃ whole fraction, s.Parts whole fraction := by
  rcases lt_or_ge s.exponent 0 with hexponent | hexponent
  · exact ⟨_, _, parts_of_small hs hne hexponent⟩
  · rcases Nat.lt_or_ge (s.exponent.toNat + 1) s.digits.length with h | h
    · exact ⟨_, _, parts_of_long hs hne hhead hexponent h⟩
    · exact ⟨_, _, parts_of_whole hs hne hhead hexponent h⟩

end Scientific

/-- Whether a text is digits, perhaps with a point and more digits after it. There is no sign and no
exponent. -/
def IsNumeral (s : List Char) : Prop :=
  ∃ whole fraction, whole ≠ [] ∧ AllDigits whole ∧ AllDigits fraction ∧ s = joined whole fraction

theorem AllDigits.isNumeral {s : List Char} (hs : AllDigits s) (hne : s ≠ []) : IsNumeral s := by
  refine ⟨s, [], hne, hs, ?_, ?_⟩
  · simp [AllDigits]
  · simp [joined]

theorem IsNumeral.mem {s : List Char} (hs : IsNumeral s) {c : Char} (hc : c ∈ s) :
    c.isDigit ∨ c = '.' := by
  obtain ⟨whole, fraction, -, hw, hf, rfl⟩ := hs
  unfold joined at hc
  split_ifs at hc
  · exact .inl (hw c hc)
  · rcases List.mem_append.mp hc with h | h
    · exact .inl (hw c h)
    · rcases List.mem_cons.mp h with h | h
      · exact .inr h
      · exact .inl (hf c h)

/-- The layout needs digits only, which may begin with a zero here. -/
theorem Scientific.isNumeral_positional {s : Scientific} (hs : AllDigits s.digits)
    (hne : s.digits ≠ []) : IsNumeral s.positional := by
  rcases lt_or_ge s.exponent 0 with hexponent | hexponent
  · have hparts := Scientific.parts_of_small hs hne hexponent
    exact ⟨_, _, hparts.ne_nil, hparts.whole_digits, hparts.fraction_digits, hparts.text⟩
  · unfold Scientific.positional
    rw [if_neg (not_lt.mpr hexponent)]
    dsimp only
    split_ifs with hlength
    · apply AllDigits.isNumeral (hs.append (allDigits_zeros _))
      simp [hne]
    · refine ⟨s.digits.take (s.exponent.toNat + 1), s.digits.drop (s.exponent.toNat + 1), ?_,
        hs.sublist (List.take_sublist _ _), hs.sublist (List.drop_sublist _ _), ?_⟩
      · simp [hne]
      · have hdrop : s.digits.drop (s.exponent.toNat + 1) ≠ [] := by simpa using hlength
        rw [joined, if_neg hdrop]

theorem Magnitude.isNumeral_plain (x : Magnitude) : IsNumeral x.plain := by
  unfold Magnitude.plain
  split_ifs with hzero
  · apply AllDigits.isNumeral
    · simp [AllDigits]
    · simp
  · have hpos := Nat.pos_of_ne_zero hzero
    apply Scientific.isNumeral_positional
    · exact Magnitude.allDigits_shortest double .up x
    · exact Magnitude.search_ne_nil .up hpos _ _

end CaseUpdate.Decimal
