import CaseUpdate.Proofs.Json.Parsing
import CaseUpdate.Proofs.Sql.LiteralBody

namespace CaseUpdate.Json

open Sql (apostrophe doubleQuotes)

mutual

/-- A value with a function applied to all its texts and keys. -/
def mapTexts (f : String → String) : Json → Json
  | .text s => .text (f s)
  | .array items => .array (mapItems f items)
  | .object members => .object (mapMembers f members)
  | v => v

def mapItems (f : String → String) : List Json → List Json
  | [] => []
  | v :: rest => mapTexts f v :: mapItems f rest

def mapMembers (f : String → String) : List (String × Json) → List (String × Json)
  | [] => []
  | (k, v) :: rest => (f k, mapTexts f v) :: mapMembers f rest

end

mutual

/-- Whether no object in a value has a key twice. -/
def HasUniqueKeys : Json → Prop
  | .array items => ItemsHaveUniqueKeys items
  | .object members => (Ordered.keys members).Nodup ∧ MembersHaveUniqueKeys members
  | _ => True

def ItemsHaveUniqueKeys : List Json → Prop
  | [] => True
  | v :: rest => HasUniqueKeys v ∧ ItemsHaveUniqueKeys rest

def MembersHaveUniqueKeys : List (String × Json) → Prop
  | [] => True
  | (_, v) :: rest => HasUniqueKeys v ∧ MembersHaveUniqueKeys rest

end

theorem membersHaveUniqueKeys_iff (members : List (String × Json)) :
    MembersHaveUniqueKeys members ↔ ∀ m ∈ members, m.2.HasUniqueKeys := by
  induction members with
  | nil => simp [MembersHaveUniqueKeys]
  | cons m rest ih =>
    obtain ⟨k, v⟩ := m
    simp [MembersHaveUniqueKeys, ih]

theorem keys_mapMembers (f : String → String) (members : List (String × Json)) :
    Ordered.keys (mapMembers f members) = (Ordered.keys members).map f := by
  induction members with
  | nil => rfl
  | cons m rest ih =>
    obtain ⟨k, v⟩ := m
    simp [mapMembers, ih]

def doubledText (s : String) : String := String.ofList (doubleQuotes s.toList)

theorem doubledText_injective : Function.Injective doubledText := by
  intro s t h
  have hl := Sql.doubleQuotes_injective (String.ofList_injective h)
  exact String.toList_injective hl

mutual

/-- Doubling the quotes in keys lets no two members of an object fall together: each member stays in
its place. -/
theorem doubledValue_eq_mapTexts : (v : Json) → v.HasUniqueKeys →
    Sql.doubledValue v = v.mapTexts doubledText
  | .null, _ => rfl
  | .bool _, _ => rfl
  | .number _, _ => rfl
  | .text _, _ => rfl
  | .array items, h => by
    rw [Sql.doubledValue, mapTexts, doubledItems_eq_mapItems items h]
  | .object members, h => by
    rw [HasUniqueKeys] at h
    -- The doubled keys still differ, so that making a map of the members moves none of them.
    have hk : (Ordered.keys (mapMembers doubledText members)).Nodup := by
      rw [keys_mapMembers]
      exact h.1.map doubledText_injective
    rw [Sql.doubledValue, mapTexts, doubledMembers_eq_mapMembers members h.2,
      Ordered.ofList_eq_self hk]

theorem doubledItems_eq_mapItems : (items : List Json) → ItemsHaveUniqueKeys items →
    Sql.doubledItems items = mapItems doubledText items
  | [], _ => rfl
  | v :: rest, h => by
    rw [ItemsHaveUniqueKeys] at h
    rw [Sql.doubledItems, mapItems, doubledValue_eq_mapTexts v h.1,
      doubledItems_eq_mapItems rest h.2]

theorem doubledMembers_eq_mapMembers : (members : List (String × Json)) →
    MembersHaveUniqueKeys members →
    Sql.doubledMembers members = mapMembers doubledText members
  | [], _ => rfl
  | (k, v) :: rest, h => by
    rw [MembersHaveUniqueKeys] at h
    rw [Sql.doubledMembers, mapMembers, doubledValue_eq_mapTexts v h.1,
      doubledMembers_eq_mapMembers rest h.2]
    rfl

end

theorem digitChar_ne_apostrophe : ∀ n < 16, Nat.digitChar n ≠ apostrophe := by decide

theorem hexQuad_ne_apostrophe {n : Nat} (hn : n < 0x20) : ∀ c ∈ hexQuad n, c ≠ apostrophe := by
  intro c hc
  obtain ⟨m, hm, rfl⟩ := List.mem_map.mp hc
  apply digitChar_ne_apostrophe
  simp only [List.mem_cons, List.not_mem_nil, or_false] at hm
  omega

/-- No escape brings a quote into a string. -/
theorem escapeChar_ne_apostrophe {c : Char} (hc : c ≠ apostrophe) :
    ∀ d ∈ escapeChar c, d ≠ apostrophe := by
  have hletter : ∀ letter, shortEscape c = some letter → letter ≠ apostrophe := by
    intro letter h
    unfold shortEscape at h
    split_ifs at h <;> (cases h; decide)
  intro d hd
  unfold escapeChar at hd
  cases hs : shortEscape c with
  | some letter =>
    rw [hs] at hd
    simp only [List.mem_cons, List.not_mem_nil, or_false] at hd
    rcases hd with rfl | rfl
    · decide
    · exact hletter d hs
  | none =>
    rw [hs] at hd
    dsimp only at hd
    split_ifs at hd with hn
    · simp only [List.mem_cons] at hd
      rcases hd with rfl | rfl | hd
      · decide
      · decide
      · exact hexQuad_ne_apostrophe hn d hd
    · rw [List.mem_singleton.mp hd]
      exact hc

theorem flatMap_escapeChar_doubleQuotes (s : List Char) :
    (doubleQuotes s).flatMap escapeChar = doubleQuotes (s.flatMap escapeChar) := by
  induction s with
  | nil => rfl
  | cons c s ih =>
    rw [Sql.doubleQuotes_cons, List.flatMap_append, List.flatMap_cons, Sql.doubleQuotes_append, ih]
    congr 1
    by_cases hc : c = apostrophe
    · subst c
      decide
    · rw [if_neg hc, Sql.doubleQuotes_self _ (escapeChar_ne_apostrophe hc)]
      simp

theorem quotedChars_doubledText (s : String) :
    quotedChars (doubledText s) = doubleQuotes (quotedChars s) := by
  have hq : ('"' : Char) ≠ apostrophe := by decide
  have hend : doubleQuotes ['"'] = ['"'] := by decide
  rw [quotedChars, quotedChars, doubledText, String.toList_ofList,
    flatMap_escapeChar_doubleQuotes, Sql.doubleQuotes_cons, if_neg hq, Sql.doubleQuotes_append,
    hend]
  rfl

theorem Number.chars_ne_apostrophe (n : Number) : ∀ c ∈ n.chars, c ≠ apostrophe := by
  rintro c hc rfl
  exact absurd (n.isNumberChar_chars _ hc) (by decide)

mutual

/-- The quotes of a document all stand in its texts and keys, so that doubling them there is
doubling them in the written document. -/
theorem chars_mapTexts : (v : Json) → (v.mapTexts doubledText).chars = doubleQuotes v.chars
  | .null => by decide
  | .bool true => by decide
  | .bool false => by decide
  | .number n => by
    have hm : (Json.number n).mapTexts doubledText = .number n := by simp [mapTexts]
    rw [hm, chars]
    exact (Sql.doubleQuotes_self _ n.chars_ne_apostrophe).symm
  | .text s => by
    rw [mapTexts, chars, chars, quotedChars_doubledText]
  | .array items => by
    rw [mapTexts, chars, chars, itemsChars_mapItems items, Sql.doubleQuotes_cons,
      Sql.doubleQuotes_append]
    rfl
  | .object members => by
    rw [mapTexts, chars, chars, membersChars_mapMembers members, Sql.doubleQuotes_cons,
      Sql.doubleQuotes_append]
    rfl

theorem itemsChars_mapItems : (items : List Json) →
    itemsChars (mapItems doubledText items) = doubleQuotes (itemsChars items)
  | [] => rfl
  | [v] => by
    simp only [mapItems, itemsChars, List.append_nil]
    exact chars_mapTexts v
  | v :: w :: rest => by
    have hrest := itemsChars_mapItems (w :: rest)
    rw [mapItems] at hrest
    rw [mapItems, mapItems, itemsChars, itemsChars, Sql.doubleQuotes_append, chars_mapTexts v,
      Sql.doubleQuotes_cons, hrest]
    rfl

theorem membersChars_mapMembers : (members : List (String × Json)) →
    membersChars (mapMembers doubledText members) = doubleQuotes (membersChars members)
  | [] => rfl
  | [(k, v)] => by
    simp only [mapMembers, membersChars, List.append_nil]
    rw [Sql.doubleQuotes_append, Sql.doubleQuotes_cons, quotedChars_doubledText, chars_mapTexts v]
    rfl
  | (k, v) :: (l, w) :: rest => by
    have hrest := membersChars_mapMembers ((l, w) :: rest)
    rw [mapMembers] at hrest
    rw [mapMembers, mapMembers, membersChars, membersChars, Sql.doubleQuotes_append,
      quotedChars_doubledText, Sql.doubleQuotes_cons, Sql.doubleQuotes_append, chars_mapTexts v,
      Sql.doubleQuotes_cons, hrest]
    rfl

end

/-- Doubling the quotes in a value is doubling them in the text that is written for it. -/
theorem chars_doubledValue {v : Json} (hv : v.HasUniqueKeys) :
    (Sql.doubledValue v).chars = doubleQuotes v.chars := by
  rw [doubledValue_eq_mapTexts v hv, chars_mapTexts]

mutual

/-- A value that was read has no key twice in an object. -/
theorem hasUniqueKeys_ofTree : (t : Tree) → ∀ v, ofTree t = some v → v.HasUniqueKeys
  | .null, v, h => by
    cases h
    trivial
  | .bool b, v, h => by
    cases h
    trivial
  | .number w, v, h => by
    rw [ofTree] at h
    obtain ⟨n, -, rfl⟩ := Option.map_eq_some_iff.mp h
    trivial
  | .text s, v, h => by
    rw [ofTree] at h
    obtain ⟨x, -, rfl⟩ := Option.map_eq_some_iff.mp h
    trivial
  | .array items, v, h => by
    rw [ofTree] at h
    obtain ⟨vs, hvs, rfl⟩ := Option.map_eq_some_iff.mp h
    exact hasUniqueKeys_ofItems items vs hvs
  | .object members, v, h => by
    rw [ofTree] at h
    obtain ⟨ms, hms, rfl⟩ := Option.map_eq_some_iff.mp h
    have hvalues := (membersHaveUniqueKeys_iff ms).mp (hasUniqueKeys_ofMembers members ms hms)
    exact ⟨Ordered.nodup_keys_ofList ms, (membersHaveUniqueKeys_iff _).mpr
      (fun m hm => hvalues m (Ordered.mem_of_mem_ofList hm))⟩

theorem hasUniqueKeys_ofItems : (items : List Tree) → ∀ vs, ofItems items = some vs →
    ItemsHaveUniqueKeys vs
  | [], vs, h => by
    cases h
    trivial
  | t :: rest, vs, h => by
    obtain ⟨v, hv, ws, hws, rfl⟩ := ofItems_cons_eq_some.mp h
    exact ⟨hasUniqueKeys_ofTree t v hv, hasUniqueKeys_ofItems rest ws hws⟩

theorem hasUniqueKeys_ofMembers : (members : List (Option String × Tree)) → ∀ ms,
    ofMembers members = some ms → MembersHaveUniqueKeys ms
  | [], ms, h => by
    cases h
    trivial
  | (k, t) :: rest, ms, h => by
    obtain ⟨key, -, v, hv, ws, hws, rfl⟩ := ofMembers_cons_eq_some.mp h
    exact ⟨hasUniqueKeys_ofTree t v hv, hasUniqueKeys_ofMembers rest ws hws⟩

end

theorem hasUniqueKeys_read {s : String} {v : Json} (h : read s = some v) : v.HasUniqueKeys := by
  obtain ⟨t, -, -, hv⟩ := read_eq_some_iff.mp h
  exact hasUniqueKeys_ofTree t v hv

end CaseUpdate.Json
