import CaseUpdate.Proofs.Json.Rereading
import CaseUpdate.Proofs.Sql.Escaping

namespace CaseUpdate.Sql

open Json (Number)

/-- The compact text of an object is stored as that of what is read from it, or as it is where it is
not read again. An empty object is the only one that counts as no document although it is read. -/
theorem storedText_object {members : List (String × Json)}
    (hkeys : (Json.object members).HasUniqueKeys) :
    storedText (Json.compact (.object members)) =
      Json.compact (Json.object members).restored := by
  have hdocument : isDocument (Json.compact (.object members)) =
      ((Json.read (Json.compact (.object members))).map isFilled).getD false := isDocument_eq _
  have hcompact := Json.read_compact _ hkeys
  rw [← Json.getD_read_compact hkeys]
  cases hread : Json.read (Json.compact (.object members)) with
  | none =>
    rw [hread] at hdocument
    rw [storedText_of_not_isDocument hdocument]
    rfl
  | some w =>
    rw [hread] at hdocument hcompact
    by_cases hfilled : isFilled w
    · rw [storedText_of_isDocument (hdocument.trans hfilled) hread]
      rfl
    · rw [storedText_of_not_isDocument (hdocument.trans (by simpa using hfilled))]
      split_ifs at hcompact
      obtain ⟨ms, hms, rfl⟩ := Option.map_eq_some_iff.mp hcompact.symm
      have hempty : ms = [] := by simpa [isFilled] using hfilled
      have hlength := congrArg List.length (Json.keys_mapNumbersOfMembers hms)
      have hmembers : members = [] := by simpa [hempty, Ordered.keys] using hlength.symm
      rw [hempty, hmembers]
      rfl

namespace LiteralStyle

/-- The literal of JSON text denotes text of the same value, in either style, where its numbers are
integers: all containers, keys, texts and numbers are there again and in their order. -/
theorem sanitize_keeps_value (style : LiteralStyle) {s : String} {v : Json}
    (hv : Json.read s = some v) (hwhole : ∀ n ∈ v.numbers, n.IsWhole) :
    ∃ text, style.Denotes (style.sanitize s) text ∧ Json.read text = some v := by
  obtain ⟨hdepth, hkeys, hrange⟩ := Json.bounds_read hv
  have hnumbers (n : Json.Number) (hn : n ∈ v.numbers) : n.reread = some n :=
    Json.reread_of_isWhole (hrange n hn) (hwhole n hn)
  exact ⟨Json.compact v, style.denotes_sanitize hv,
    Json.read_compact_eq_self hkeys hdepth hnumbers⟩

theorem sanitize_keeps_value_of_nested :
    ∃ v text, Json.read "\x7b \"it's\": [-7, -0, \"a\\\"\\\\\\u0001é\", \x7b\"k\": null\x7d] \x7d" = some v ∧
      v.numbers = [.integer (-7), .minusZero] ∧
      Denotes .backslash
        (sanitize .backslash "\x7b \"it's\": [-7, -0, \"a\\\"\\\\\\u0001é\", \x7b\"k\": null\x7d] \x7d")
        text ∧
      Json.read text = some v := by
  obtain ⟨v, hv, hnumbers⟩ := Option.map_eq_some_iff.mp (show
    (Json.read "\x7b \"it's\": [-7, -0, \"a\\\"\\\\\\u0001é\", \x7b\"k\": null\x7d] \x7d").map Json.numbers =
      some [.integer (-7), .minusZero] by decide +kernel)
  have hwhole : ∀ n ∈ v.numbers, n.IsWhole := by
    rw [hnumbers]
    simp [Number.IsWhole, Number.minusZero]
  obtain ⟨text, htext, hread⟩ := sanitize_keeps_value .backslash hv hwhole
  exact ⟨v, text, hv, hnumbers, htext, hread⟩

end LiteralStyle

end CaseUpdate.Sql
