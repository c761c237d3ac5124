import CaseUpdate.Proofs.Json.Quotes
import CaseUpdate.Proofs.Sql.Documents

namespace CaseUpdate.Sql

open Json (doubledText)

/-- The text that the literal of a text denotes. A JSON document is stored in compact form. -/
def storedText (s : String) : String :=
  if isDocument s then ((Json.read s).map Json.compact).getD s else s

theorem exists_read_of_isDocument {s : String} (h : isDocument s) : ∃ v, Json.read s = some v := by
  obtain ⟨v, hv, -⟩ := isDocument_iff.mp h
  exact ⟨v, hv⟩

theorem storedText_of_not_isDocument {s : String} (h : isDocument s = false) :
    storedText s = s := by
  simp [storedText, h]

theorem storedText_of_isDocument {s : String} {v : Json} (h : isDocument s)
    (hv : Json.read s = some v) : storedText s = Json.compact v := by
  simp [storedText, h, hv]

namespace LiteralStyle

/-- Whether a body between the quotes of a literal denotes a text. -/
def Denotes (style : LiteralStyle) (body text : String) : Prop :=
  style.readBody body.toList = some text.toList

/-- The body written for a JSON value reads back as the compact text of the value. -/
theorem readBody_documentBody (style : LiteralStyle) (v : Json) (hv : v.HasUniqueKeys) :
    style.readBody (style.documentBody v) = some v.chars := by
  have hchars := Json.chars_doubledValue hv
  cases style with
  | backslash =>
    simp only [documentBody, hchars]
    exact readBody_doubleBackslashes v.chars
  | quoteDoubling =>
    simp only [documentBody, hchars]
    exact readBody_doubleQuotes v.chars

theorem denotes_sanitize (style : LiteralStyle) {s : String} {v : Json}
    (hv : Json.read s = some v) : style.Denotes (style.sanitize s) (Json.compact v) := by
  have hbody := readBody_documentBody style v (Json.hasUniqueKeys_read hv)
  simpa only [Denotes, sanitize, hv, Json.compact, String.toList_ofList] using hbody

theorem denotes_escapeText (style : LiteralStyle) (s : String) :
    style.Denotes (style.escapeText s) (storedText s) := by
  unfold escapeText
  by_cases h : isDocument s
  · obtain ⟨v, hv⟩ := exists_read_of_isDocument h
    rw [if_pos h, storedText_of_isDocument h hv]
    exact denotes_sanitize style hv
  · rw [if_neg h, storedText_of_not_isDocument (by simpa using h), Denotes, String.toList_ofList]
    exact readBody_escapePlain style s.toList

/-- A text without quotes and backslashes denotes itself. -/
theorem denotes_self (style : LiteralStyle) (s : String)
    (hs : ∀ c ∈ s.toList, c ≠ apostrophe ∧ c ≠ '\\') : style.Denotes s s :=
  readBody_self style s.toList hs

/-- Both literal styles undo their escaping. Plain text reads back as it was, and a JSON document as
its value in compact form; doubling the quotes within the document keeps all its members, with every
text and key in its place. -/
theorem escapeText_reads_back (style : LiteralStyle) (s : String) :
    (isDocument s = false ∧ style.readBody (style.escapeText s).toList = some s.toList) ∨
    (isDocument s = true ∧ ∃ v, Json.read s = some v ∧
      style.readBody (style.escapeText s).toList = some (Json.compact v).toList ∧
      v.HasUniqueKeys ∧ doubledValue v = v.mapTexts doubledText) := by
  have hread := denotes_escapeText style s
  unfold Denotes at hread
  cases h : isDocument s with
  | false =>
    rw [storedText_of_not_isDocument h] at hread
    exact .inl ⟨rfl, hread⟩
  | true =>
    obtain ⟨v, hv⟩ := exists_read_of_isDocument h
    have hkeys := Json.hasUniqueKeys_read hv
    rw [storedText_of_isDocument h hv] at hread
    exact .inr ⟨rfl, v, hv, hread, hkeys, Json.doubledValue_eq_mapTexts v hkeys⟩

end LiteralStyle

end CaseUpdate.Sql

namespace CaseUpdate

open Sql Decimal

namespace Scalar

/-- The text that the literal of a scalar denotes; NULL has none. -/
def stored? : Scalar → Option String
  | .null => none
  | .bool b => some (if b then "1" else "0")
  | .int n => some (Scalar.int n).display
  | .float x => some (Scalar.float x).display
  | .text s => some (storedText s)

end Scalar

theorem isNumberChar_ne {c : Char} (h : isNumberChar c) : c ≠ apostrophe ∧ c ≠ '\\' := by
  constructor <;> (rintro rfl; revert h; decide)

theorem Decimal.Double.plain_ne (x : Double) : ∀ c ∈ x.plain, c ≠ apostrophe ∧ c ≠ '\\' := by
  cases x with
  | nan negative =>
    have h : ∀ c ∈ "NaN".toList, c ≠ apostrophe ∧ c ≠ '\\' := by simp [apostrophe]
    exact h
  | infinite negative =>
    have h : ∀ c ∈ signed negative "inf".toList, c ≠ apostrophe ∧ c ≠ '\\' := by
      cases negative <;> simp [signed, apostrophe]
    exact h
  | finite negative x =>
    intro c hc
    exact isNumberChar_ne (isNumberChar_signed x.isPositional_plain.isNumberChar c hc)

/-- The body of a scalar's literal denotes the text that is stored for the scalar. -/
theorem Sql.LiteralStyle.denotes_escapeScalar (style : LiteralStyle) (s : Scalar) :
    (s = .null ∧ style.escapeScalar s = none ∧ s.stored? = none) ∨
    ∃ body text, style.escapeScalar s = some body ∧ s.stored? = some text ∧
      style.Denotes body text := by
  cases s with
  | null => exact .inl ⟨rfl, rfl, rfl⟩
  | bool b =>
    refine .inr ⟨_, _, rfl, rfl, style.denotes_self _ ?_⟩
    cases b <;> simp [apostrophe]
  | int n =>
    refine .inr ⟨_, _, rfl, rfl, style.denotes_self _ ?_⟩
    intro c hc
    rw [Scalar.display, String.toList_ofList] at hc
    exact isNumberChar_ne (Json.isNumberChar_integerChars n c hc)
  | float x =>
    refine .inr ⟨_, _, rfl, rfl, style.denotes_self _ ?_⟩
    intro c hc
    rw [Scalar.display, String.toList_ofList] at hc
    exact x.plain_ne c hc
  | text s => exact .inr ⟨_, _, rfl, rfl, style.denotes_escapeText s⟩

end CaseUpdate
