import CaseUpdate.Proofs.Json.Parsing
import CaseUpdate.Sql.Document

namespace CaseUpdate.Sql

/-- A text that is a finite number after its blanks is a number as a document, too, if it is one. -/
theorem number_of_readDouble {s : String} {x : Decimal.Double} {v : Json}
    (h : Decimal.readDouble (Text.trimStart s.toList) = some x) (hx : x.isFinite)
    (hv : Json.read s = some v) : ∃ n, v = .number n := by
  obtain ⟨c, rest, htrim, hc⟩ := Decimal.exists_head_of_readDouble h hx
  exact Json.number_of_read htrim hc hv

/-- Looking for a number first changes no answer. -/
theorem isDocument_eq (s : String) :
    isDocument s = ((Json.read s).map isFilled).getD false := by
  unfold isDocument
  split_ifs with hnumeric
  · cases hv : Json.read s with
    | none => rfl
    | some v =>
      unfold isNumeric at hnumeric
      cases hx : Decimal.readDouble (Text.trimStart s.toList) with
      | none => simp [hx] at hnumeric
      | some x =>
        rw [hx] at hnumeric
        obtain ⟨n, rfl⟩ := number_of_readDouble hx hnumeric hv
        rfl
  · cases Json.read s <;> rfl

theorem isDocument_iff {s : String} :
    isDocument s ↔ ∃ v, Json.read s = some v ∧ isFilled v := by
  rw [isDocument_eq]
  cases Json.read s <;> simp

namespace LiteralStyle

/-- Every text is either a document, and is written anew from the value that is read from it, or is
escaped as it stands, and the documents are the texts that are read as an object, an array or a text
that is not empty. What is a finite number after any blanks is none of these: to look for a number
first only saves the reading. -/
theorem documents_are_reserialized (style : LiteralStyle) (s : String) :
    (isDocument s ↔
      (∃ members, Json.read s = some (.object members) ∧ members ≠ []) ∨
      (∃ items, Json.read s = some (.array items) ∧ items ≠ []) ∨
      ∃ t, Json.read s = some (.text t) ∧ t ≠ "") ∧
    (∀ x, Decimal.readDouble (Text.trimStart s.toList) = some x → x.isFinite →
      ∀ v, Json.read s = some v → ∃ n, v = .number n) ∧
    ((isDocument s = true ∧ ∃ v, Json.read s = some v ∧
        style.sanitize s = String.ofList (style.documentBody v) ∧
        style.escapeText s = style.sanitize s) ∨
      (isDocument s = false ∧
        style.escapeText s = String.ofList (style.escapePlain s.toList))) := by
  refine ⟨?_, fun x hx hfinite v hv => number_of_readDouble hx hfinite hv, ?_⟩
  · rw [isDocument_eq]
    cases Json.read s with
    | none => simp
    | some v => cases v <;> simp [isFilled]
  · cases h : isDocument s with
    | true =>
      obtain ⟨v, hv, -⟩ := isDocument_iff.mp h
      exact .inl ⟨rfl, v, hv, by rw [sanitize, hv], by rw [escapeText, if_pos h]⟩
    | false => exact .inr ⟨rfl, by simp [escapeText, h]⟩

/-- After a line break an array with a text in it is a document, which is written anew with its quote
doubled, and a number is none, and is escaped with its line break. -/
theorem documents_are_reserialized_of_blanks :
    isDocument "\n[1, \"it's\"]" ∧
    escapeText .backslash "\n[1, \"it's\"]" = "[1,\"it''s\"]" ∧
    (∃ x, Decimal.readDouble (Text.trimStart "\n1e3".toList) = some x ∧ x.isFinite) ∧
    (∃ n, Json.read "\n1e3" = some (.number n)) ∧
    escapeText .backslash "\n1e3" = "\\n1e3" := by
  have hdocument : isDocument "\n[1, \"it's\"]" = true := by decide +kernel
  have hno : isDocument "\n1e3" = false := by decide +kernel
  have hbody : (Json.read "\n[1, \"it's\"]").map
      (fun v => String.ofList (documentBody .backslash v)) = some "[1,\"it''s\"]" := by
    decide +kernel
  obtain ⟨x, hx, hfinite⟩ := Option.map_eq_some_iff.mp (show
    (Decimal.readDouble (Text.trimStart "\n1e3".toList)).map Decimal.Double.isFinite = some true
      by decide +kernel)
  obtain ⟨v, hv⟩ := Option.isSome_iff_exists.mp (show (Json.read "\n1e3").isSome by decide +kernel)
  obtain ⟨-, -, harray⟩ := documents_are_reserialized .backslash "\n[1, \"it's\"]"
  obtain ⟨-, hnumber, hplain⟩ := documents_are_reserialized .backslash "\n1e3"
  obtain ⟨n, rfl⟩ := hnumber x hx hfinite v hv
  refine ⟨hdocument, ?_, ⟨x, hx, hfinite⟩, ⟨n, hv⟩, ?_⟩
  · rcases harray with ⟨-, w, hw, hsanitize, hescape⟩ | ⟨hfalse, -⟩
    · rw [hw] at hbody
      exact hescape.trans (hsanitize.trans (Option.some.inj hbody))
    · rw [hdocument] at hfalse
      cases hfalse
  · rcases hplain with ⟨htrue, -⟩ | ⟨-, hescape⟩
    · rw [hno] at htrue
      cases htrue
    · exact hescape.trans (by decide +kernel)

end LiteralStyle

end CaseUpdate.Sql
