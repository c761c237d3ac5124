import CaseUpdate.Json.Token
import CaseUpdate.Proofs.Decimal.Digits
import CaseUpdate.Text.Blank

namespace CaseUpdate.Json

open Decimal (isNumberChar)

/-- The body of a string. -/
def escaped (s : String) : List Char := s.toList.flatMap escapeChar

mutual

/-- The tokens of the compact text of a value. -/
def tokens : Json → List Token
  | .null => [.bare "null".toList]
  | .bool true => [.bare "true".toList]
  | .bool false => [.bare "false".toList]
  | .number n => [.bare n.chars]
  | .text s => [.quoted (escaped s)]
  | .array items => .mark '[' :: (itemsTokens items ++ [.mark ']'])
  | .object members => .mark '{' :: (membersTokens members ++ [.mark '}'])

def itemsTokens : List Json → List Token
  | [] => []
  | v :: rest => tokens v ++ (match rest with | [] => [] | _ :: _ => .mark ',' :: itemsTokens rest)

def membersTokens : List (String × Json) → List Token
  | [] => []
  | (k, v) :: rest =>
    .quoted (escaped k) :: .mark ':' ::
      (tokens v ++ (match rest with | [] => [] | _ :: _ => .mark ',' :: membersTokens rest))

end

/-- What is true of each of the six marks is true of a mark. -/
theorem forall_isMark {p : Char → Prop} (h : p '[' ∧ p ']' ∧ p '{' ∧ p '}' ∧ p ':' ∧ p ',')
    {c : Char} (hc : isMark c) : p c := by
  obtain ⟨h₁, h₂, h₃, h₄, h₅, h₆⟩ := h
  simp only [isMark, Bool.or_eq_true, decide_eq_true_eq] at hc
  rcases hc with ((((rfl | rfl) | rfl) | rfl) | rfl) | rfl <;> assumption

namespace Lexing

theorem run_cons (l : Lexing) (c : Char) (s : List Char) :
    l.run (c :: s) = (l.step c).bind fun r => (r.2.run s).map (r.1 ++ ·) := by
  rw [run]
  cases l.step c with
  | none => rfl
  | some r => cases hr : r.2.run s <;> simp [hr]

/-- A character that ends no token only changes the state. -/
theorem run_shift {l l' : Lexing} {c : Char} (h : l.step c = some ([], l')) (s : List Char) :
    l.run (c :: s) = l'.run s := by
  rw [run_cons, h, Option.bind_some]
  simp

theorem run_mark {c : Char} (h : isMark c) (s : List Char) :
    between.run (c :: s) = (between.run s).map (.mark c :: ·) := by
  have hgap := forall_isMark (p := fun c => isGap c = false) (by decide) h
  have hstart : start c = some ([.mark c], .between) := by simp [start, hgap, h]
  have hstep : between.step c = start c := rfl
  rw [run_cons, hstep, hstart]
  rfl

theorem start_bare {c : Char} (h : isBare c) : start c = some ([], .bare [c]) := by
  have hne (d : Char) (hd : isBare d = false) : c ≠ d := by
    rintro rfl
    rw [h] at hd
    cases hd
  have hgap : isGap c = false := by
    simp [isGap, hne ' ' rfl, hne '\t' rfl, hne '\n' rfl, hne '\r' rfl]
  have hmark : isMark c = false := by
    simp [isMark, hne '[' rfl, hne ']' rfl, hne '{' rfl, hne '}' rfl, hne ':' rfl, hne ',' rfl]
  simp [start, hgap, hmark, hne '"' rfl, h]

/-- A text with which no bare token goes on: it is empty, or another character comes first. -/
def EndsBare (rest : List Char) : Prop := ∀ c ∈ rest.head?, isBare c = false

theorem endsBare_of_isMark {c : Char} (h : isMark c) (rest : List Char) : EndsBare (c :: rest) := by
  intro d hd
  obtain rfl : c = d := by simpa using hd
  exact forall_isMark (p := fun c => isBare c = false) (by decide) h

theorem run_bareState {s rest : List Char} (hs : ∀ c ∈ s, isBare c) (hrest : EndsBare rest)
    (rev : List Char) :
    (bare rev).run (s ++ rest) = (between.run rest).map (.bare (rev.reverse ++ s) :: ·) := by
  induction s generalizing rev with
  | nil =>
    cases rest with
    | nil => simp [run]
    | cons c rest =>
      have hc : isBare c = false := hrest c (by simp)
      have hstep : (bare rev).step c = (start c).map fun r => (.bare rev.reverse :: r.1, r.2) := by
        rw [step, hc]
        rfl
      have hstart : between.step c = start c := rfl
      rw [List.nil_append, run_cons, run_cons, hstep, hstart]
      cases start c with
      | none => rfl
      | some r => cases hr : r.2.run rest <;> simp [hr]
  | cons c s ih =>
    have hstep : (bare rev).step c = some ([], .bare (c :: rev)) := by
      rw [step, if_pos (hs c (by simp))]
    rw [List.cons_append, run_shift hstep, ih (fun d hd => hs d (by simp [hd]))]
    simp

theorem run_bare {s rest : List Char} (hs : ∀ c ∈ s, isBare c) (hne : s ≠ [])
    (hrest : EndsBare rest) :
    between.run (s ++ rest) = (between.run rest).map (.bare s :: ·) := by
  obtain ⟨c, s, rfl⟩ := List.exists_cons_of_ne_nil hne
  have hstep : between.step c = some ([], .bare [c]) := start_bare (hs c (by simp))
  rw [List.cons_append, run_shift hstep, run_bareState (fun d hd => hs d (by simp [hd])) hrest]
  rfl

theorem step_quoted {c : Char} (hquote : c ≠ '"') (hslash : c ≠ '\\') (rev : List Char) :
    (quoted rev).step c = some ([], .quoted (c :: rev)) := by
  rw [step, if_neg hquote, if_neg hslash]

/-- Characters of which none is a quote or a backslash stay within a string. -/
theorem run_quoted_plain {s : List Char} (hs : ∀ c ∈ s, c ≠ '"' ∧ c ≠ '\\')
    (rev rest : List Char) :
    (quoted rev).run (s ++ rest) = (quoted (s.reverse ++ rev)).run rest := by
  induction s generalizing rev with
  | nil => rfl
  | cons c s ih =>
    obtain ⟨hquote, hslash⟩ := hs c (by simp)
    rw [List.cons_append, run_shift (step_quoted hquote hslash rev),
      ih (fun d hd => hs d (by simp [hd]))]
    simp

theorem run_quoted_escape (c : Char) (rev rest : List Char) :
    (quoted rev).run ('\\' :: c :: rest) = (quoted (c :: '\\' :: rev)).run rest := by
  have hopen : (quoted rev).step '\\' = some ([], .escaped ('\\' :: rev)) := rfl
  have hclose : (Lexing.escaped ('\\' :: rev)).step c = some ([], .quoted (c :: '\\' :: rev)) := rfl
  rw [run_shift hopen, run_shift hclose]

end Lexing

theorem digitChar_ne_quote : ∀ n < 16, Nat.digitChar n ≠ '"' ∧ Nat.digitChar n ≠ '\\' := by decide

theorem hexQuad_plain {n : Nat} (hn : n < 0x20) : ∀ c ∈ hexQuad n, c ≠ '"' ∧ c ≠ '\\' := by
  intro c hc
  obtain ⟨m, hm, rfl⟩ := List.mem_map.mp hc
  apply digitChar_ne_quote
  simp only [List.mem_cons, List.not_mem_nil, or_false] at hm
  omega

theorem shortEscape_eq_none {c : Char} (h : shortEscape c = none) : c ≠ '"' ∧ c ≠ '\\' := by
  constructor <;> (rintro rfl; revert h; decide)

namespace Lexing

/-- An escaped character does not end the string in which it stands. -/
theorem run_escapeChar (c : Char) (rev rest : List Char) :
    (quoted rev).run (escapeChar c ++ rest) = (quoted ((escapeChar c).reverse ++ rev)).run rest := by
  unfold escapeChar
  cases h : shortEscape c with
  | some letter => exact run_quoted_escape letter rev rest
  | none =>
    dsimp only
    split_ifs with hcontrol
    · rw [List.cons_append, List.cons_append, run_quoted_escape,
        run_quoted_plain (hexQuad_plain hcontrol)]
      simp
    · have hplain : ∀ d ∈ [c], d ≠ '"' ∧ d ≠ '\\' := by simpa using shortEscape_eq_none h
      exact run_quoted_plain hplain rev rest

theorem run_flatMap_escapeChar (s rev rest : List Char) :
    (quoted rev).run (s.flatMap escapeChar ++ rest) =
      (quoted ((s.flatMap escapeChar).reverse ++ rev)).run rest := by
  induction s generalizing rev with
  | nil => rfl
  | cons c s ih =>
    rw [List.flatMap_cons, List.append_assoc, run_escapeChar, ih]
    simp

theorem run_quotedChars (s : String) (rest : List Char) :
    between.run (quotedChars s ++ rest) =
      (between.run rest).map (.quoted (Json.escaped s) :: ·) := by
  have hopen : between.step '"' = some ([], .quoted []) := rfl
  have hclose (rev : List Char) : (quoted rev).step '"' = some ([.quoted rev.reverse], .between) :=
    rfl
  rw [quotedChars, List.cons_append, run_shift hopen, List.append_assoc, run_flatMap_escapeChar,
    List.singleton_append, run_cons, hclose, Option.bind_some, List.append_nil,
    List.reverse_reverse]
  rfl

end Lexing

theorem isBare_of_isNumberChar {c : Char} (h : isNumberChar c) : isBare c := by
  simp only [isNumberChar, Bool.or_eq_true, decide_eq_true_eq] at h
  rcases h with (((h | rfl) | rfl) | rfl) | rfl
  · simp [isBare, Char.isAlphanum, h]
  all_goals rfl

theorem Number.chars_ne_nil (n : Number) : n.chars ≠ [] := by
  have hsigned (negative : Bool) {s : List Char} (hs : s ≠ []) : Decimal.signed negative s ≠ [] := by
    cases negative with
    | false => exact hs
    | true => exact List.cons_ne_nil _ _
  cases n with
  | integer n => exact hsigned _ Nat.toDigits_ne_nil
  | real negative x => exact hsigned _ x.json_ne_nil

open Lexing

mutual

/-- The lexer reads the tokens of a value, whatever comes after it unless that goes on with a bare
token. -/
theorem run_chars : (v : Json) → ∀ rest, EndsBare rest →
    between.run (chars v ++ rest) = (between.run rest).map (tokens v ++ ·)
  | .null, rest, h => by
    rw [chars, tokens]
    exact run_bare (by simp [isBare]) (by simp) h
  | .bool true, rest, h => by
    rw [chars, tokens]
    exact run_bare (by simp [isBare]) (by simp) h
  | .bool false, rest, h => by
    rw [chars, tokens]
    exact run_bare (by simp [isBare]) (by simp) h
  | .number n, rest, h => by
    rw [chars, tokens]
    exact run_bare (fun c hc => isBare_of_isNumberChar (n.isNumberChar_chars c hc)) n.chars_ne_nil h
  | .text s, rest, _ => by
    rw [chars, tokens, run_quotedChars]
    rfl
  | .array items, rest, _ => by
    have hitems := run_itemsChars items (']' :: rest) (endsBare_of_isMark rfl rest)
    rw [chars, tokens, List.cons_append, List.append_assoc, List.singleton_append,
      run_mark rfl, hitems, run_mark rfl]
    simp [Option.map_map, Function.comp_def]
  | .object members, rest, _ => by
    have hmembers := run_membersChars members ('}' :: rest) (endsBare_of_isMark rfl rest)
    rw [chars, tokens, List.cons_append, List.append_assoc, List.singleton_append,
      run_mark rfl, hmembers, run_mark rfl]
    simp [Option.map_map, Function.comp_def]

theorem run_itemsChars : (items : List Json) → ∀ rest, EndsBare rest →
    between.run (itemsChars items ++ rest) = (between.run rest).map (itemsTokens items ++ ·)
  | [], rest, _ => by simp [itemsChars, itemsTokens]
  | [v], rest, h => by
    simp only [itemsChars, itemsTokens, List.append_nil]
    exact run_chars v rest h
  | v :: w :: items, rest, h => by
    have hitems := run_itemsChars (w :: items) rest h
    have hv := run_chars v (',' :: (itemsChars (w :: items) ++ rest)) (endsBare_of_isMark rfl _)
    rw [itemsChars, itemsTokens, List.append_assoc, List.cons_append, hv, run_mark rfl, hitems]
    simp [Option.map_map, Function.comp_def]

theorem run_membersChars : (members : List (String × Json)) → ∀ rest, EndsBare rest →
    between.run (membersChars members ++ rest) = (between.run rest).map (membersTokens members ++ ·)
  | [], rest, _ => by simp [membersChars, membersTokens]
  | [(k, v)], rest, h => by
    simp only [membersChars, membersTokens, List.append_nil]
    rw [List.append_assoc, List.cons_append, run_quotedChars, run_mark rfl, run_chars v rest h]
    simp [Option.map_map, Function.comp_def]
  | (k, v) :: m :: members, rest, h => by
    have hmembers := run_membersChars (m :: members) rest h
    have hv := run_chars v (',' :: (membersChars (m :: members) ++ rest)) (endsBare_of_isMark rfl _)
    rw [membersChars, membersTokens, List.append_assoc, List.cons_append, List.append_assoc,
      List.cons_append, run_quotedChars, run_mark rfl, hv, run_mark rfl, hmembers]
    simp [Option.map_map, Function.comp_def]

end

/-- The compact text of a value consists of its tokens. -/
theorem lex_chars (v : Json) : lex (chars v) = some (tokens v) := by
  have h := run_chars v [] (by simp [EndsBare])
  rw [List.append_nil] at h
  rw [lex, h]
  simp [run]

theorem isBlank_of_isBare {c : Char} (h : isBare c) : Text.isBlank c = false := by
  have hrange : (0x2B ≤ c.toNat ∧ c.toNat ≤ 0x39) ∨ (0x41 ≤ c.toNat ∧ c.toNat ≤ 0x7A) := by
    simp only [isBare, Char.isAlphanum, Char.isAlpha, Char.isUpper, Char.isLower, Char.isDigit,
      Bool.or_eq_true, Bool.and_eq_true, decide_eq_true_eq, ge_iff_le, UInt32.le_iff_toNat_le] at h
    rcases h with ((((h | h) | h) | rfl) | rfl) | rfl
    · exact .inr ⟨h.1, h.2.trans (by decide)⟩
    · exact .inr ⟨le_trans (by decide) h.1, h.2⟩
    · exact .inl ⟨le_trans (by decide) h.1, h.2⟩
    all_goals decide
  simp only [Text.isBlank, Bool.or_eq_false_iff, Bool.and_eq_false_iff, decide_eq_false_iff_not,
    beq_eq_false_iff_ne]
  omega

/-- No token begins with a blank that is no gap. -/
theorem start_of_isBlank {c : Char} (h : Text.isBlank c) (hgap : isGap c = false) :
    start c = none := by
  have hnone {p : Char → Bool} (hp : ∀ d, p d → Text.isBlank d = false) : p c = false := by
    by_contra hc
    rw [hp c (by simpa using hc)] at h
    cases h
  have hmark : isMark c = false :=
    hnone fun d hd => forall_isMark (p := fun d => Text.isBlank d = false) (by decide) hd
  have hbare : isBare c = false := hnone fun d hd => isBlank_of_isBare hd
  have hquote : c ≠ '"' := by
    rintro rfl
    cases h
  simp [start, hgap, hmark, hquote, hbare]

/-- Of the blanks before a document the lexer admits gaps only, and it skips them. -/
theorem lex_trimStart {s : List Char} {ts : List Token} (h : lex s = some ts) :
    lex (Text.trimStart s) = some ts := by
  induction s with
  | nil => exact h
  | cons c s ih =>
    by_cases hblank : Text.isBlank c
    · have htrim : Text.trimStart (c :: s) = Text.trimStart s := by
        rw [Text.trimStart, List.dropWhile_cons_of_pos hblank, Text.trimStart]
      have hstep : between.step c = start c := rfl
      rw [htrim]
      apply ih
      -- The lexer has got past this blank, so it is a gap.
      cases hgap : isGap c with
      | true =>
        have hskip : between.step c = some ([], .between) := by rw [hstep, start, if_pos hgap]
        rwa [lex, run_shift hskip] at h
      | false =>
        rw [lex, run_cons, hstep, start_of_isBlank hblank hgap] at h
        cases h
    · have htrim : Text.trimStart (c :: s) = c :: s := by
        rw [Text.trimStart, List.dropWhile_cons_of_neg hblank]
      rwa [htrim]

/-- A bare token reaches as far as its characters do. -/
theorem lex_bare {c : Char} {s : List Char} {ts : List Token} (hc : isBare c)
    (h : lex (c :: s) = some ts) : ∃ word rest, ts = .bare (c :: word) :: rest := by
  have hword : (c :: s).takeWhile isBare = c :: s.takeWhile isBare :=
    List.takeWhile_cons_of_pos hc
  have hends : EndsBare ((c :: s).dropWhile isBare) := by
    intro d hd
    have hnot := List.head?_dropWhile_not isBare (c :: s)
    rw [hd] at hnot
    exact hnot
  have hrun := run_bare (fun d hd => List.mem_takeWhile_imp hd)
    (hword ▸ List.cons_ne_nil _ _) hends
  rw [List.takeWhile_append_dropWhile, hword] at hrun
  rw [lex, hrun] at h
  obtain ⟨rest, -, rfl⟩ := Option.map_eq_some_iff.mp h
  exact ⟨_, rest, rfl⟩

end CaseUpdate.Json
