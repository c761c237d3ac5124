import CaseUpdate.Proofs.Sql.Escaping

namespace CaseUpdate.Sql

/-- Where quotes are doubled, a body denotes a text only if it is the text with its quotes
doubled. -/
theorem readBody_quoteDoubling_iff {body s : List Char} :
    LiteralStyle.quoteDoubling.readBody body = some s ↔ body = doubleQuotes s := by
  constructor
  · intro h
    induction body using LiteralStyle.readBody.induct LiteralStyle.quoteDoubling generalizing s with
    | case1 =>
      cases h
      rfl
    | case2 c hc =>
      rw [LiteralStyle.readBody, if_pos hc] at h
      cases h
    | case3 c hc =>
      rw [LiteralStyle.readBody, if_neg hc] at h
      cases h
      rw [not_or] at hc
      simp [doubleQuotes, hc.1]
    | case4 rest ih =>
      rw [readBody_apostrophes, Option.map_eq_some_iff] at h
      obtain ⟨t, ht, rfl⟩ := h
      rw [doubleQuotes_cons, if_pos rfl, ih ht]
      rfl
    | case5 d rest hd => simp [LiteralStyle.readBody, hd] at h
    | case6 c d rest hc hb => cases hb.2
    | case7 c d rest hc hb ih =>
      rw [readBody_ordinary _ hc (fun _ => rfl), Option.map_eq_some_iff] at h
      obtain ⟨t, ht, rfl⟩ := h
      rw [doubleQuotes_cons, if_neg hc, ih ht]
      rfl
  · rintro rfl
    exact readBody_doubleQuotes s

theorem escapeBackslashes_of_some {c letter : Char} (h : backslashLetter c = some letter)
    (s : List Char) : escapeBackslashes (c :: s) = '\\' :: letter :: escapeBackslashes s := by
  simp [escapeBackslashes, h]

theorem escapeBackslashes_of_none {c : Char} (h : backslashLetter c = none) (s : List Char) :
    escapeBackslashes (c :: s) = c :: escapeBackslashes s := by
  simp [escapeBackslashes, h]

theorem length_doubleQuotes_le (s : List Char) :
    (doubleQuotes s).length ≤ (escapeBackslashes s).length := by
  induction s with
  | nil => simp [doubleQuotes]
  | cons c s ih =>
    rw [doubleQuotes_cons]
    cases h : backslashLetter c with
    | none =>
      rw [escapeBackslashes_of_none h, if_neg (backslashLetter_eq_none h).1]
      simpa using ih
    | some letter =>
      rw [escapeBackslashes_of_some h]
      split_ifs <;> simp <;> omega

/-- The two ways to escape a text agree only where there is nothing to escape. -/
theorem escapeBackslashes_eq_doubleQuotes_iff (s : List Char) :
    escapeBackslashes s = doubleQuotes s ↔ ∀ c ∈ s, backslashLetter c = none := by
  induction s with
  | nil => simp [escapeBackslashes, doubleQuotes]
  | cons c s ih =>
    rw [doubleQuotes_cons, List.forall_mem_cons, ← ih]
    cases h : backslashLetter c with
    | none =>
      rw [escapeBackslashes_of_none h, if_neg (backslashLetter_eq_none h).1]
      simp
    | some letter =>
      have hlength := length_doubleQuotes_le s
      rw [escapeBackslashes_of_some h]
      simp only [reduceCtorEq, false_and, iff_false]
      intro heq
      -- The backslash differs from a quote, and is one character too many for all others.
      by_cases ha : c = apostrophe
      · rw [if_pos ha, ha] at heq
        exact absurd (List.head_eq_of_cons_eq heq) (by decide)
      · rw [if_neg ha] at heq
        have hlengths := congrArg List.length heq
        simp only [List.length_cons, List.length_append, List.length_nil] at hlengths
        omega

theorem mem_doubleQuotes {c : Char} {s : List Char} : c ∈ doubleQuotes s ↔ c ∈ s := by
  rw [doubleQuotes, List.mem_flatMap]
  constructor
  · rintro ⟨d, hd, hc⟩
    split_ifs at hc <;> simp_all
  · intro hc
    exact ⟨c, hc, by split_ifs <;> simp⟩

theorem doubleBackslashes_cons (c : Char) (s : List Char) :
    doubleBackslashes (c :: s) = (if c = '\\' then [c, c] else [c]) ++ doubleBackslashes s := rfl

theorem length_doubleBackslashes (s : List Char) :
    (doubleBackslashes s).length = s.length + s.count '\\' := by
  induction s with
  | nil => rfl
  | cons c s ih =>
    rw [doubleBackslashes_cons, List.length_append, ih]
    by_cases hc : c = '\\'
    · rw [if_pos hc, hc, List.count_cons_self, List.length_cons]
      simp only [List.length_cons, List.length_nil]
      omega
    · rw [if_neg hc, List.count_cons_of_ne hc, List.length_cons]
      simp only [List.length_cons, List.length_nil]
      omega

theorem doubleBackslashes_eq_self_iff (s : List Char) : doubleBackslashes s = s ↔ '\\' ∉ s := by
  constructor
  · intro h
    have hlength := length_doubleBackslashes s
    rw [h, Nat.left_eq_add] at hlength
    exact List.count_eq_zero.mp hlength
  · intro h
    induction s with
    | nil => rfl
    | cons c s ih =>
      rw [List.mem_cons, not_or] at h
      rw [doubleBackslashes_cons, if_neg (Ne.symm h.1), ih h.2]
      rfl

/-- Whether a text has nothing to escape, but for what doubling the quotes of a JSON document
escapes. -/
def IsBare (s : String) : Prop :=
  if isDocument s then '\\' ∉ (storedText s).toList else ∀ c ∈ s.toList, backslashLetter c = none

instance : DecidablePred IsBare := fun s =>
  inferInstanceAs (Decidable
    (if isDocument s then '\\' ∉ (storedText s).toList
      else ∀ c ∈ s.toList, backslashLetter c = none))

namespace LiteralStyle

/-- Where quotes are doubled and a backslash is a character like any other, a text that was escaped
by backslashes is read as it is stored only if it is bare. -/
theorem denotes_backslash_iff (s : String) :
    quoteDoubling.Denotes (backslash.escapeText s) (storedText s) ↔ IsBare s := by
  rw [Denotes, readBody_quoteDoubling_iff, escapeText, IsBare]
  by_cases h : isDocument s
  · obtain ⟨v, hv⟩ := exists_read_of_isDocument h
    have hchars := Json.chars_doubledValue (Json.hasUniqueKeys_read hv)
    simp only [if_pos h, sanitize, hv, documentBody, hchars, storedText_of_isDocument h hv,
      Json.compact, String.toList_ofList]
    rw [doubleBackslashes_eq_self_iff, mem_doubleQuotes]
  · rw [if_neg h, if_neg h, storedText_of_not_isDocument (by simpa using h), String.toList_ofList]
    exact escapeBackslashes_eq_doubleQuotes_iff s.toList

theorem denotes_foreign_iff (style : LiteralStyle) (s : String) :
    quoteDoubling.Denotes (style.escapeText s) (storedText s) ↔
      style = .quoteDoubling ∨ IsBare s := by
  cases style with
  | backslash => simpa using denotes_backslash_iff s
  | quoteDoubling => simpa using denotes_escapeText .quoteDoubling s

end LiteralStyle

end CaseUpdate.Sql
