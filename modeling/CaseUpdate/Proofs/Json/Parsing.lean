import CaseUpdate.Json.Reader
import CaseUpdate.Proofs.Json.Lexing

namespace CaseUpdate.Json

section Texts

/-- What the escapes of a character are undone to: a unit where it was written as four digits. -/
def pieceOf (c : Char) : Piece :=
  match shortEscape c with
  | some _ => .char c
  | none => if c.toNat < 0x20 then .unit c.toNat else .char c

theorem escapedLetter_shortEscape {c letter : Char} (h : shortEscape c = some letter) :
    escapedLetter letter = some c ∧ letter ≠ 'u' := by
  unfold shortEscape at h
  split_ifs at h <;> (cases h; subst_vars; decide)

theorem hexUnit_hexQuad : ∀ n < 0x20,
    hexUnit (n / 4096).digitChar (n / 256 % 16).digitChar (n / 16 % 16).digitChar
      (n % 16).digitChar = some n := by decide

theorem unescape_letter {letter c : Char} (hu : letter ≠ 'u') (h : escapedLetter letter = some c)
    (rest : List Char) :
    unescape ('\\' :: letter :: rest) = (unescape rest).map (.char c :: ·) := by
  rw [unescape.eq_def]
  simp only [if_true, if_neg hu, h]
  cases unescape rest <;> rfl

theorem unescape_unit {a b c d : Char} {n : Nat} (h : hexUnit a b c d = some n)
    (rest : List Char) :
    unescape ('\\' :: 'u' :: a :: b :: c :: d :: rest) = (unescape rest).map (.unit n :: ·) := by
  rw [unescape, if_pos rfl]
  simp only [if_true, h]
  cases unescape rest <;> rfl

theorem unescape_plain {c : Char} (hslash : c ≠ '\\') (hcontrol : ¬ c.toNat < 0x20)
    (rest : List Char) : unescape (c :: rest) = (unescape rest).map (.char c :: ·) := by
  rw [unescape.eq_def]
  simp only [if_neg hslash, if_neg hcontrol]

theorem unescape_escapeChar (c : Char) (rest : List Char) :
    unescape (escapeChar c ++ rest) = (unescape rest).map (pieceOf c :: ·) := by
  unfold escapeChar pieceOf
  cases h : shortEscape c with
  | some letter =>
    obtain ⟨hletter, hu⟩ := escapedLetter_shortEscape h
    exact unescape_letter hu hletter rest
  | none =>
    by_cases hcontrol : c.toNat < 0x20
    · simp only [if_pos hcontrol]
      exact unescape_unit (hexUnit_hexQuad _ hcontrol) rest
    · simp only [if_neg hcontrol]
      exact unescape_plain (shortEscape_eq_none h).2 hcontrol rest

theorem pairUnits_unit {n : Nat} (h : n < 0x20) (rest : List Piece) :
    pairUnits (.unit n :: rest) = (pairUnits rest).map (Char.ofNat n :: ·) := by
  have hhigh : isHighHalf n = false := by
    simp only [isHighHalf, Bool.and_eq_false_iff, decide_eq_false_iff_not]
    omega
  have hlow : isLowHalf n = false := by
    simp only [isLowHalf, Bool.and_eq_false_iff, decide_eq_false_iff_not]
    omega
  rw [pairUnits.eq_def]
  simp [hhigh, hlow]

theorem pairUnits_pieceOf (c : Char) (rest : List Piece) :
    pairUnits (pieceOf c :: rest) = (pairUnits rest).map (c :: ·) := by
  unfold pieceOf
  cases shortEscape c with
  | some letter => rfl
  | none =>
    by_cases hcontrol : c.toNat < 0x20
    · simp only [if_pos hcontrol]
      rw [pairUnits_unit hcontrol, Char.ofNat_toNat]
    · simp only [if_neg hcontrol]
      rfl

/-- A string is read as the text for which it was written. -/
theorem textOf_escaped (s : String) : textOf (escaped s) = some (some s) := by
  have hunescape (l : List Char) : unescape (l.flatMap escapeChar) = some (l.map pieceOf) := by
    induction l with
    | nil => rfl
    | cons c l ih =>
      rw [List.flatMap_cons, unescape_escapeChar, ih]
      rfl
  have hpair (l : List Char) : pairUnits (l.map pieceOf) = some l := by
    induction l with
    | nil => rfl
    | cons c l ih =>
      rw [List.map_cons, pairUnits_pieceOf, ih]
      rfl
  rw [textOf, escaped, hunescape, Option.map_some, hpair, Option.map_some, String.ofList_toList]

end Texts

mutual

/-- What the grammar makes of the compact text of a value, provided that it admits the numbers. -/
def written : Json → Option Tree
  | .null => some .null
  | .bool b => some (.bool b)
  | .number n => (Written.read n.chars).map .number
  | .text s => some (.text (some s))
  | .array items => (writtenItems items).map .array
  | .object members => (writtenMembers members).map .object

def writtenItems : List Json → Option (List Tree)
  | [] => some []
  | v :: rest => do
    let t ← written v
    let ts ← writtenItems rest
    return t :: ts

def writtenMembers : List (String × Json) → Option (List (Option String × Tree))
  | [] => some []
  | (k, v) :: rest => do
    let t ← written v
    let ms ← writtenMembers rest
    return (some k, t) :: ms

end

/-- A bare token that begins like a number is read as one, for none of the literal names does. -/
theorem leaf_of_isNumberChar {c : Char} (hc : Decimal.isNumberChar c) (word : List Char) :
    leaf (.bare (c :: word)) = (Written.read (c :: word)).map .number := by
  have hne (name : String) (hname : ∀ d ∈ name.toList.head?, Decimal.isNumberChar d = false) :
      c :: word ≠ name.toList := by
    intro h
    have hfalse := hname c (by simp [← h])
    rw [hc] at hfalse
    cases hfalse
  rw [leaf, if_neg (hne "null" (by simp [Decimal.isNumberChar])),
    if_neg (hne "true" (by simp [Decimal.isNumberChar])),
    if_neg (hne "false" (by simp [Decimal.isNumberChar]))]

theorem leaf_number (n : Number) : leaf (.bare n.chars) = (Written.read n.chars).map .number := by
  obtain ⟨c, word, hchars⟩ := List.exists_cons_of_ne_nil n.chars_ne_nil
  rw [hchars]
  exact leaf_of_isNumberChar (n.isNumberChar_chars c (by simp [hchars])) word

section Steps

variable (slots : List Slot)

theorem begin_leaf {t : Token} (hlist : t ≠ .mark '[') (hobject : t ≠ .mark '{') :
    begin slots t = (leaf t).map (deliver · slots) := by
  rw [begin, if_neg hlist, if_neg hobject]

theorem leaf_text (s : String) : leaf (.quoted (escaped s)) = some (.text (some s)) := by
  rw [leaf, textOf_escaped]
  rfl

theorem step_firstItem {t : Token} (h : t ≠ .mark ']') :
    Reading.step (.firstItem slots) t = Reading.step (.value (.item [] :: slots)) t := if_neg h

theorem step_firstKey (s : List Char) :
    Reading.step (.firstKey slots) (.quoted s) = Reading.step (.key [] slots) (.quoted s) := rfl

/-- A key with its colon opens a member. -/
theorem foldlM_key (before : List (Option String × Tree)) (k : String) (rest : List Token) :
    (.quoted (escaped k) :: .mark ':' :: rest).foldlM Reading.step (.key before slots) =
      rest.foldlM Reading.step (.value (.member before (some k) :: slots)) := by
  have hkey : Reading.step (.key before slots) (.quoted (escaped k)) =
      some (.colon before (some k) slots) := by
    rw [Reading.step, beginMember, textOf_escaped]
    rfl
  rw [List.foldlM_cons, hkey]
  rfl

end Steps

theorem tokens_head (v : Json) : ∃ t rest, tokens v = t :: rest ∧ t ≠ .mark ']' := by
  cases v with
  | bool b => cases b <;> exact ⟨_, _, rfl, by simp⟩
  | _ => exact ⟨_, _, rfl, by simp⟩

theorem itemsTokens_head (v : Json) (items : List Json) :
    ∃ t rest, itemsTokens (v :: items) = t :: rest ∧ t ≠ .mark ']' := by
  obtain ⟨t, rest, htokens, ht⟩ := tokens_head v
  cases items with
  | nil => exact ⟨t, rest, by rw [itemsTokens, htokens, List.append_nil], ht⟩
  | cons w items => exact ⟨t, _, by rw [itemsTokens, htokens, List.cons_append], ht⟩

theorem membersTokens_head (k : String) (v : Json) (members : List (String × Json)) :
    ∃ rest, membersTokens ((k, v) :: members) = .quoted (escaped k) :: rest := by
  cases members <;> exact ⟨_, rfl⟩

mutual

/-- The reader takes up the tokens of a value where a value may come, within any open containers. -/
theorem foldlM_tokens : (v : Json) → ∀ slots rest,
    (tokens v ++ rest).foldlM Reading.step (.value slots) =
      (written v).bind fun t => rest.foldlM Reading.step (deliver t slots)
  | .null, slots, rest => rfl
  | .bool true, slots, rest => rfl
  | .bool false, slots, rest => rfl
  | .number n, slots, rest => by
    rw [tokens, written, List.singleton_append, List.foldlM_cons, Reading.step,
      begin_leaf _ (by simp) (by simp), leaf_number]
    cases Written.read n.chars <;> rfl
  | .text s, slots, rest => by
    rw [tokens, written, List.singleton_append, List.foldlM_cons, Reading.step,
      begin_leaf _ (by simp) (by simp), leaf_text]
    rfl
  | .array [], slots, rest => rfl
  | .array (v :: items), slots, rest => by
    have hopen : Reading.step (.value slots) (.mark '[') = some (.firstItem slots) := rfl
    have hitems := foldlM_itemsTokens (v :: items) (List.cons_ne_nil _ _) [] slots rest
    obtain ⟨t, tail, htokens, ht⟩ := itemsTokens_head v items
    rw [htokens, List.cons_append, List.foldlM_cons] at hitems
    rw [tokens, htokens, List.cons_append, List.cons_append, List.cons_append, List.append_assoc,
      List.singleton_append, List.foldlM_cons, hopen, Option.bind_eq_bind, Option.bind_some,
      List.foldlM_cons, step_firstItem slots ht, hitems, written]
    cases writtenItems (v :: items) <;> rfl
  | .object [], slots, rest => rfl
  | .object ((k, v) :: members), slots, rest => by
    have hopen : Reading.step (.value slots) (.mark '{') = some (.firstKey slots) := rfl
    have hmembers := foldlM_membersTokens ((k, v) :: members) (List.cons_ne_nil _ _) [] slots rest
    obtain ⟨tail, htokens⟩ := membersTokens_head k v members
    rw [htokens, List.cons_append, List.foldlM_cons] at hmembers
    rw [tokens, htokens, List.cons_append, List.cons_append, List.cons_append, List.append_assoc,
      List.singleton_append, List.foldlM_cons, hopen, Option.bind_eq_bind, Option.bind_some,
      List.foldlM_cons, step_firstKey, hmembers, written]
    cases writtenMembers ((k, v) :: members) <;> rfl

theorem foldlM_itemsTokens : (items : List Json) → items ≠ [] → ∀ before slots rest,
    (itemsTokens items ++ Token.mark ']' :: rest).foldlM Reading.step
        (.value (.item before :: slots)) =
      (writtenItems items).bind fun ts =>
        rest.foldlM Reading.step (deliver (.array (before ++ ts)) slots)
  | [], h, _, _, _ => absurd rfl h
  | [v], _, before, slots, rest => by
    rw [itemsTokens, List.append_nil, foldlM_tokens v, writtenItems]
    cases written v <;> rfl
  | v :: w :: items, _, before, slots, rest => by
    have hcomma (ts : List Tree) : Reading.step (.afterItem ts slots) (.mark ',') =
        some (.value (.item ts :: slots)) := rfl
    rw [itemsTokens, List.append_assoc, List.cons_append, foldlM_tokens v, writtenItems]
    cases written v with
    | none => rfl
    | some t =>
      have hitems := foldlM_itemsTokens (w :: items) (List.cons_ne_nil _ _) (before ++ [t]) slots rest
      simp only [Option.bind_some, deliver, List.foldlM_cons, hcomma, hitems, Option.bind_eq_bind]
      cases writtenItems (w :: items) <;> simp

theorem foldlM_membersTokens : (members : List (String × Json)) → members ≠ [] →
    ∀ before slots rest,
    (membersTokens members ++ Token.mark '}' :: rest).foldlM Reading.step (.key before slots) =
      (writtenMembers members).bind fun ms =>
        rest.foldlM Reading.step (deliver (.object (before ++ ms)) slots)
  | [], h, _, _, _ => absurd rfl h
  | [(k, v)], _, before, slots, rest => by
    rw [membersTokens, List.append_nil, List.cons_append, List.cons_append, foldlM_key,
      foldlM_tokens v, writtenMembers]
    cases written v <;> rfl
  | (k, v) :: m :: members, _, before, slots, rest => by
    have hcomma (ms : List (Option String × Tree)) :
        Reading.step (.afterMember ms slots) (.mark ',') = some (.key ms slots) := rfl
    rw [membersTokens, List.cons_append, List.cons_append, List.append_assoc, List.cons_append,
      foldlM_key, foldlM_tokens v, writtenMembers]
    cases written v with
    | none => rfl
    | some t =>
      have hmembers := foldlM_membersTokens (m :: members) (List.cons_ne_nil _ _)
        (before ++ [(some k, t)]) slots rest
      simp only [Option.bind_some, deliver, List.foldlM_cons, hcomma, hmembers, Option.bind_eq_bind]
      cases writtenMembers (m :: members) <;> simp

end

/-- The grammar reads from the compact text of a value what was written. -/
theorem tree_compact (v : Json) : tree (compact v) = written v := by
  have h := foldlM_tokens v [] []
  rw [List.append_nil] at h
  rw [tree, compact, String.toList_ofList, lex_chars, Option.bind_some, treeOfTokens, h]
  cases written v <;> rfl

/-- A bare token is a value by itself, and nothing comes after it. -/
theorem leaf_of_treeOfTokens {word : List Char} {rest : List Token} {t : Tree}
    (h : treeOfTokens (.bare word :: rest) = some t) : leaf (.bare word) = some t := by
  have hstep : Reading.step (.value []) (.bare word) = (leaf (.bare word)).map .finished := by
    rw [Reading.step, begin_leaf _ (by simp) (by simp)]
    rfl
  rw [treeOfTokens, List.foldlM_cons, hstep] at h
  cases hleaf : leaf (.bare word) with
  | none => simp [hleaf] at h
  | some u =>
    cases rest with
    | nil => simpa [hleaf] using h
    | cons r rest =>
      have hlast : Reading.step (.finished u) r = none := rfl
      simp [hleaf, List.foldlM_cons, hlast] at h

section Values

variable {t : Tree} {v : Json}

theorem ofItems_cons_eq_some {items : List Tree} {vs : List Json} :
    ofItems (t :: items) = some vs ↔
      ∃ v, ofTree t = some v ∧ ∃ ws, ofItems items = some ws ∧ v :: ws = vs := by
  simp only [ofItems, Option.bind_eq_bind, Option.bind_eq_some_iff, Option.pure_def,
    Option.some.injEq]

theorem ofMembers_cons_eq_some {key : Option String} {members : List (Option String × Tree)}
    {ms : List (String × Json)} :
    ofMembers ((key, t) :: members) = some ms ↔
      ∃ k, key = some k ∧ ∃ v, ofTree t = some v ∧ ∃ ws, ofMembers members = some ws ∧
        (k, v) :: ws = ms := by
  simp only [ofMembers, Option.bind_eq_bind, Option.bind_eq_some_iff, Option.pure_def,
    Option.some.injEq]

theorem read_eq_some_iff {s : String} :
    read s = some v ↔ ∃ t, tree s = some t ∧ t.depth ≤ maxDepth ∧ ofTree t = some v := by
  simp only [read, Option.bind_eq_bind, Option.bind_eq_some_iff, Option.ite_none_right_eq_some]

end Values

/-- A document that begins like a number, whatever blanks come before, is a number. -/
theorem number_of_read {s : String} {c : Char} {rest : List Char} {v : Json}
    (htrim : Text.trimStart s.toList = c :: rest) (hc : Decimal.isNumberChar c)
    (h : read s = some v) : ∃ n, v = .number n := by
  obtain ⟨t, htree, -, hv⟩ := read_eq_some_iff.mp h
  obtain ⟨ts, hts, ht⟩ := Option.bind_eq_some_iff.mp htree
  have hlex := lex_trimStart hts
  rw [htrim] at hlex
  obtain ⟨word, tail, rfl⟩ := lex_bare (isBare_of_isNumberChar hc) hlex
  have hleaf := leaf_of_treeOfTokens ht
  rw [leaf_of_isNumberChar hc] at hleaf
  obtain ⟨w, -, rfl⟩ := Option.map_eq_some_iff.mp hleaf
  obtain ⟨n, -, rfl⟩ := Option.map_eq_some_iff.mp hv
  exact ⟨n, rfl⟩

end CaseUpdate.Json
