import Mathlib
import CaseUpdate.Decimal.Layout
import CaseUpdate.Decimal.Numeral
import CaseUpdate.Json.Printer

namespace CaseUpdate.Decimal

/-- Whether a text has nothing but digits. -/
def AllDigits (s : List Char) : Prop := ∀ c ∈ s, c.isDigit

theorem allDigits_toDigits (n : Nat) : AllDigits (Nat.toDigits 10 n) :=
  fun _ hc => Nat.isDigit_of_mem_toDigits (by decide) (by decide) hc

/-- No zero stands before other digits of a number. -/
theorem toDigits_head_ne_zero {n : Nat} (hn : n ≠ 0) : (Nat.toDigits 10 n).head? ≠ some '0' := by
  induction n using Nat.strongRecOn with
  | ind n ih =>
    by_cases hlt : n < 10
    · rw [Nat.toDigits_of_lt_base hlt]
      simpa using hn
    · have hle : 10 ≤ n := by omega
      rw [Nat.toDigits_of_base_le (by decide) hle, List.head?_append_of_ne_nil _ Nat.toDigits_ne_nil]
      exact ih (n / 10) (by omega) (by omega)

theorem allDigits_zeros (n : Nat) : AllDigits (zeros n) := by
  intro c hc
  rw [List.eq_of_mem_replicate hc]
  decide

theorem AllDigits.append {s t : List Char} (hs : AllDigits s) (ht : AllDigits t) :
    AllDigits (s ++ t) := by
  intro c hc
  rcases List.mem_append.mp hc with h | h
  · exact hs c h
  · exact ht c h

theorem AllDigits.sublist {s t : List Char} (ht : AllDigits t) (h : s.Sublist t) : AllDigits s :=
  fun c hc => ht c (h.subset hc)

theorem Scientific.allDigits_ofGrid (n : Nat) (grid : Int) :
    AllDigits (Scientific.ofGrid n grid).digits := by
  intro c hc
  have h : c ∈ (Nat.toDigits 10 n).reverse.dropWhile (· = '0') := by
    simpa [Scientific.ofGrid] using hc
  have hr : c ∈ (Nat.toDigits 10 n).reverse := (List.dropWhile_sublist _).subset h
  exact allDigits_toDigits n c (List.mem_reverse.mp hr)

theorem Magnitude.allDigits_search (f : Format) (tie : Tie) (x : Magnitude) (fuel : Nat)
    (grid : Int) : AllDigits (x.search f tie fuel grid).digits := by
  induction fuel generalizing grid with
  | zero =>
    intro c hc
    have h : c = '0' := by simpa [Magnitude.search] using hc
    rw [h]
    decide
  | succ fuel ih =>
    rw [Magnitude.search]
    cases x.onGrid f tie grid with
    | none => exact ih (grid - 1)
    | some n => exact Scientific.allDigits_ofGrid n grid

theorem Magnitude.allDigits_shortest (f : Format) (tie : Tie) (x : Magnitude) :
    AllDigits (x.shortest f tie).digits := Magnitude.allDigits_search f tie x _ _

/-- Nothing, or a point with digits after it. -/
def IsFraction (s : List Char) : Prop := s = [] ∨ ∃ digits, AllDigits digits ∧ s = '.' :: digits

def IsPositional (s : List Char) : Prop :=
  ∃ whole tail, whole ≠ [] ∧ AllDigits whole ∧ IsFraction tail ∧ s = whole ++ tail

theorem AllDigits.isPositional {s : List Char} (hs : AllDigits s) (hne : s ≠ []) :
    IsPositional s := ⟨s, [], hne, hs, .inl rfl, by simp⟩

theorem Scientific.isPositional_positional (s : Scientific) (hs : AllDigits s.digits) :
    IsPositional s.positional := by
  unfold Scientific.positional
  by_cases hneg : s.exponent < 0
  · rw [if_pos hneg]
    exact ⟨['0'], _, by simp, by simp [AllDigits],
      .inr ⟨_, (allDigits_zeros _).append hs, rfl⟩, rfl⟩
  rw [if_neg hneg]
  by_cases hlen : s.digits.length ≤ s.exponent.toNat + 1
  · simp only [if_pos hlen]
    apply (hs.append (allDigits_zeros _)).isPositional
    intro hnil
    have hz := congrArg List.length hnil
    simp only [List.length_append, zeros, List.length_replicate, List.length_nil] at hz
    omega
  · simp only [if_neg hlen]
    refine ⟨_, _, ?_, hs.sublist (List.take_sublist _ _),
      .inr ⟨_, hs.sublist (List.drop_sublist _ _), rfl⟩, rfl⟩
    intro hnil
    have hz := congrArg List.length hnil
    simp only [List.length_take, List.length_nil] at hz
    omega

theorem Magnitude.isPositional_plain (x : Magnitude) : IsPositional x.plain := by
  unfold Magnitude.plain
  split_ifs
  · exact (show AllDigits ['0'] by simp [AllDigits]).isPositional (by simp)
  · exact Scientific.isPositional_positional _ (Magnitude.allDigits_shortest _ _ x)

theorem IsPositional.mem {s : List Char} (hs : IsPositional s) {c : Char} (hc : c ∈ s) :
    c.isDigit ∨ c = '.' := by
  obtain ⟨whole, tail, -, hw, ht, rfl⟩ := hs
  rcases List.mem_append.mp hc with h | h
  · exact .inl (hw c h)
  rcases ht with rfl | ⟨fraction, hf, rfl⟩
  · cases h
  rcases List.mem_cons.mp h with h | h
  · exact .inr h
  · exact .inl (hf c h)

theorem IsPositional.head {s : List Char} (hs : IsPositional s) :
    ∃ c rest, s = c :: rest ∧ c.isDigit := by
  obtain ⟨whole, tail, hne, hw, -, rfl⟩ := hs
  obtain ⟨c, rest, rfl⟩ := List.exists_cons_of_ne_nil hne
  exact ⟨c, rest ++ tail, rfl, hw c (by simp)⟩

theorem splitSign_unsigned {c : Char} (hminus : c ≠ '-') (hplus : c ≠ '+') (s : List Char) :
    splitSign (c :: s) = (false, c :: s) := by
  rw [splitSign.eq_3 _ (by simpa using hminus) (by simpa using hplus)]

/-- Digits end where a fraction begins. -/
theorem IsFraction.takeWhile_append {whole tail : List Char} (ht : IsFraction tail)
    (hw : AllDigits whole) :
    (whole ++ tail).takeWhile Char.isDigit = whole ∧
      (whole ++ tail).dropWhile Char.isDigit = tail := by
  have hpoint : ('.' : Char).isDigit = false := by decide
  rw [List.takeWhile_append_of_pos hw, List.dropWhile_append_of_pos hw]
  rcases ht with rfl | ⟨fraction, -, rfl⟩ <;> simp [hpoint]

theorem IsFraction.splitFraction_snd {tail : List Char} (ht : IsFraction tail) :
    (splitFraction tail).2 = [] := by
  rcases ht with rfl | ⟨fraction, hf, rfl⟩
  · rfl
  · exact List.dropWhile_eq_nil_iff.mpr hf

theorem IsPositional.isSome_readNumeral {s : List Char} (hs : IsPositional s) :
    (readNumeral s).isSome := by
  obtain ⟨c, rest, hc, hd⟩ := hs.head
  have hsign : splitSign s = (false, s) := by
    rw [hc]
    apply splitSign_unsigned <;> (rintro rfl; exact absurd hd (by decide))
  obtain ⟨whole, tail, hne, hw, ht, rfl⟩ := hs
  obtain ⟨htake, hdrop⟩ := ht.takeWhile_append hw
  unfold readNumeral
  simp only [hsign, htake, hdrop, hne, false_and, if_false, ht.splitFraction_snd, readExponent,
    Option.map_some, Option.isSome_some]

/-- The characters of a number in JSON: digits, signs, the point and the letter of the exponent. -/
def isNumberChar (c : Char) : Bool := c.isDigit || c = '.' || c = 'e' || c = '+' || c = '-'

theorem isNumberChar_of_isDigit {c : Char} (h : c.isDigit) : isNumberChar c := by
  simp [isNumberChar, h]

theorem IsPositional.isNumberChar {s : List Char} (hs : IsPositional s) :
    ∀ c ∈ s, isNumberChar c := by
  intro c hc
  rcases hs.mem hc with h | rfl
  · exact isNumberChar_of_isDigit h
  · decide

theorem isNumberChar_signed {negative : Bool} {s : List Char} (hs : ∀ c ∈ s, isNumberChar c) :
    ∀ c ∈ signed negative s, isNumberChar c := by
  intro c hc
  cases negative with
  | false => exact hs c hc
  | true =>
    rcases List.mem_cons.mp hc with rfl | h
    · decide
    · exact hs c h

theorem Scientific.isNumberChar_exponential (s : Scientific) (hs : AllDigits s.digits) :
    ∀ c ∈ s.exponential, isNumberChar c := by
  intro c hc
  have hdigit (d : Char) (hd : d ∈ s.digits) := isNumberChar_of_isDigit (hs d hd)
  have htail (d : Char) (hd : d ∈ s.digits.drop 1) : isNumberChar d :=
    hdigit d (List.drop_subset 1 s.digits hd)
  simp only [Scientific.exponential, List.mem_append, List.mem_cons] at hc
  rcases hc with (h | h) | rfl | rfl | h
  · exact hdigit c (List.mem_of_mem_take h)
  · split at h
    · simp at h
    · rcases List.mem_cons.mp h with rfl | h
      · decide
      · exact htail c h
  · decide
  · split_ifs <;> decide
  · exact isNumberChar_of_isDigit (allDigits_toDigits _ c h)

theorem Scientific.isNumberChar_pointed (s : Scientific) (hs : AllDigits s.digits) :
    ∀ c ∈ s.pointed, isNumberChar c := by
  have hp := (s.isPositional_positional hs).isNumberChar
  intro c hc
  unfold Scientific.pointed at hc
  split_ifs at hc
  · exact hp c hc
  · have htail : ∀ d ∈ ['.', '0'], isNumberChar d := by simp [isNumberChar]
    rcases List.mem_append.mp hc with h | h
    · exact hp c h
    · exact htail c h

theorem Magnitude.isNumberChar_json (x : Magnitude) : ∀ c ∈ x.json, isNumberChar c := by
  have hs := Magnitude.allDigits_shortest double .even x
  have hzero : ∀ c ∈ "0.0".toList, isNumberChar c := by simp [isNumberChar]
  unfold Magnitude.json Magnitude.jsonIn
  by_cases hz : x.significand = 0
  · rwa [if_pos hz]
  rw [if_neg hz]
  dsimp only
  split_ifs
  · exact Scientific.isNumberChar_exponential _ hs
  · exact Scientific.isNumberChar_pointed _ hs

/-- A number in digits begins with a sign, a digit or the point. -/
theorem exists_head_of_readNumeral {s : List Char} {n : Numeral} (h : readNumeral s = some n) :
    ∃ c rest, s = c :: rest ∧ isNumberChar c := by
  cases s with
  | nil => cases h
  | cons c rest =>
    refine ⟨c, rest, rfl, ?_⟩
    by_contra hc
    simp only [isNumberChar, Bool.or_eq_true, decide_eq_true_eq, not_or, Bool.not_eq_true] at hc
    obtain ⟨⟨⟨⟨hdigit, hpoint⟩, -⟩, hplus⟩, hminus⟩ := hc
    have hsign := splitSign_unsigned hminus hplus rest
    have hfraction : splitFraction (c :: rest) = ([], c :: rest) := by
      rw [splitFraction.eq_2 _ (by simpa using hpoint)]
    simp [readNumeral, hsign, hdigit, hfraction] at h

theorem isFinite_readWordy {s : List Char} {x : Double} (h : readWordy s = some x) :
    x.isFinite = false := by
  unfold readWordy at h
  dsimp only at h
  split_ifs at h <;> (cases h; rfl)

/-- A finite real is read from digits only: the words name none. -/
theorem exists_head_of_readDouble {s : List Char} {x : Double} (h : readDouble s = some x)
    (hx : x.isFinite) : ∃ c rest, s = c :: rest ∧ isNumberChar c := by
  unfold readDouble at h
  cases hn : readNumeral s with
  | some n => exact exists_head_of_readNumeral hn
  | none =>
    rw [hn] at h
    rw [isFinite_readWordy h] at hx
    cases hx

theorem IsPositional.ne_nil {s : List Char} (hs : IsPositional s) : s ≠ [] := by
  obtain ⟨c, rest, rfl, -⟩ := hs.head
  exact List.cons_ne_nil c rest

theorem Magnitude.json_ne_nil (x : Magnitude) : x.json ≠ [] := by
  have hs := Magnitude.allDigits_shortest double .even x
  have hpositional := (Scientific.isPositional_positional _ hs).ne_nil
  unfold Magnitude.json Magnitude.jsonIn
  by_cases hz : x.significand = 0
  · rw [if_pos hz]
    simp
  rw [if_neg hz]
  dsimp only
  split_ifs
  · simp [Scientific.exponential]
  · unfold Scientific.pointed
    split_ifs
    · exact hpositional
    · simp

end CaseUpdate.Decimal

namespace CaseUpdate.Json

open Decimal

theorem isNumberChar_integerChars (n : Int) : ∀ c ∈ integerChars n, isNumberChar c :=
  isNumberChar_signed (fun c hc => isNumberChar_of_isDigit (allDigits_toDigits _ c hc))

theorem Number.isNumberChar_chars (n : Number) : ∀ c ∈ n.chars, isNumberChar c := by
  cases n with
  | integer n => exact isNumberChar_integerChars n
  | real negative x => exact isNumberChar_signed x.isNumberChar_json

end CaseUpdate.Json
