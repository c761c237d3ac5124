import Mathlib
import CaseUpdate.Sql.Document

namespace CaseUpdate.Sql

open LiteralStyle

/-- If each character of a text is written as a piece that reads back as that character, then the
pieces read back as the text. -/
theorem readBody_flatMap (style : LiteralStyle) (write : Char → List Char) (s : List Char)
    (hw : ∀ c ∈ s, ∀ rest, style.readBody (write c ++ rest) = (style.readBody rest).map (c :: ·)) :
    style.readBody (s.flatMap write) = some s := by
  induction s with
  | nil => simp [readBody]
  | cons c s ih =>
    have hs : style.readBody (s.flatMap write) = some s :=
      ih (fun d hd => hw d (List.mem_cons_of_mem _ hd))
    rw [List.flatMap_cons, hw c (by simp), hs, Option.map_some]

theorem readBody_apostrophes (style : LiteralStyle) (rest : List Char) :
    style.readBody (apostrophe :: apostrophe :: rest) =
      (style.readBody rest).map (apostrophe :: ·) := by
  simp [readBody]

theorem readBody_backslash (c : Char) (rest : List Char) :
    LiteralStyle.backslash.readBody ('\\' :: c :: rest) =
      (LiteralStyle.backslash.readBody rest).map (backslashMeaning c :: ·) := by
  have hb : '\\' ≠ apostrophe := by decide
  rw [readBody, if_neg hb, if_pos ⟨rfl, rfl⟩]

theorem readBody_ordinary (style : LiteralStyle) {c : Char} (ha : c ≠ apostrophe)
    (hb : c = '\\' → style = .quoteDoubling) (rest : List Char) :
    style.readBody (c :: rest) = (style.readBody rest).map (c :: ·) := by
  have h : ¬ (c = '\\' ∧ style = .backslash) := by
    rintro ⟨hc, hs⟩
    rw [hb hc] at hs
    cases hs
  cases rest with
  | nil => simp [readBody, ha, h]
  | cons d rest => rw [readBody, if_neg ha, if_neg h]

theorem readBody_doubleQuotes (s : List Char) :
    LiteralStyle.quoteDoubling.readBody (doubleQuotes s) = some s := by
  apply readBody_flatMap
  intro c _ rest
  by_cases hc : c = apostrophe
  · subst c
    simp only [if_true]
    exact readBody_apostrophes _ rest
  · simp only [if_neg hc]
    exact readBody_ordinary _ hc (fun _ => rfl) rest

/-- The letter after a backslash names the character for which it was written. -/
theorem backslashMeaning_backslashLetter {c letter : Char} (h : backslashLetter c = some letter) :
    backslashMeaning letter = c := by
  unfold backslashLetter at h
  split_ifs at h <;> (cases h; subst_vars; decide)

theorem backslashLetter_eq_none {c : Char} (h : backslashLetter c = none) :
    c ≠ apostrophe ∧ c ≠ '\\' := by
  constructor <;> (rintro rfl; revert h; decide)

theorem readBody_escapeBackslashes (s : List Char) :
    LiteralStyle.backslash.readBody (escapeBackslashes s) = some s := by
  apply readBody_flatMap
  intro c _ rest
  cases h : backslashLetter c with
  | none =>
    obtain ⟨ha, hb⟩ := backslashLetter_eq_none h
    exact readBody_ordinary _ ha (fun hc => absurd hc hb) rest
  | some letter =>
    have hr := readBody_backslash letter rest
    rw [backslashMeaning_backslashLetter h] at hr
    exact hr

theorem readBody_escapePlain (style : LiteralStyle) (s : List Char) :
    style.readBody (style.escapePlain s) = some s := by
  cases style with
  | backslash => exact readBody_escapeBackslashes s
  | quoteDoubling => exact readBody_doubleQuotes s

/-- Doubling the backslashes after the quotes keeps the two apart: a doubled backslash never takes
the quote that follows it. -/
theorem readBody_doubleBackslashes (s : List Char) :
    LiteralStyle.backslash.readBody (doubleBackslashes (doubleQuotes s)) = some s := by
  rw [doubleBackslashes, doubleQuotes, List.flatMap_assoc]
  apply readBody_flatMap
  intro c _ rest
  by_cases ha : c = apostrophe
  · subst c
    exact readBody_apostrophes _ rest
  by_cases hb : c = '\\'
  · subst c
    exact readBody_backslash '\\' rest
  · simpa [ha, hb] using readBody_ordinary .backslash ha (fun hc => absurd hc hb) rest

theorem readBody_self (style : LiteralStyle) (s : List Char)
    (hs : ∀ c ∈ s, c ≠ apostrophe ∧ c ≠ '\\') : style.readBody s = some s := by
  have h := readBody_flatMap style (fun c => [c]) s
    (fun c hc rest => readBody_ordinary style (hs c hc).1 (fun he => absurd he (hs c hc).2) rest)
  simpa using h

/-- Different texts stay different when their quotes are doubled. -/
theorem doubleQuotes_injective : Function.Injective doubleQuotes := by
  intro s t h
  have hs := readBody_doubleQuotes s
  rw [h, readBody_doubleQuotes t] at hs
  exact (Option.some.inj hs).symm

theorem doubleQuotes_append (s t : List Char) :
    doubleQuotes (s ++ t) = doubleQuotes s ++ doubleQuotes t := List.flatMap_append

theorem doubleQuotes_cons (c : Char) (s : List Char) :
    doubleQuotes (c :: s) = (if c = apostrophe then [c, c] else [c]) ++ doubleQuotes s := rfl

theorem doubleQuotes_self (s : List Char) (hs : ∀ c ∈ s, c ≠ apostrophe) : doubleQuotes s = s := by
  induction s with
  | nil => rfl
  | cons c s ih =>
    rw [doubleQuotes_cons, if_neg (hs c (by simp)), ih (fun d hd => hs d (by simp [hd]))]
    rfl

end CaseUpdate.Sql
