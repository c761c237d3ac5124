import CaseUpdate.Proofs.Decimal.Digits
import CaseUpdate.Proofs.Sql.Escaping
import CaseUpdate.Sql.Token
import CaseUpdate.Step

namespace CaseUpdate.Sql

open Decimal (IsPositional)

namespace Scanning

variable {lexis : Lexis}

theorem run_cons (st : Scanning) (c : Char) (s : List Char) :
    run lexis st (c :: s) =
      (st.step lexis c).bind fun r => (run lexis r.2 s).map fun tokens => r.1 ++ tokens := by
  rw [run]
  cases st.step lexis c with
  | none => rfl
  | some r =>
    obtain ⟨tokens, st'⟩ := r
    cases hr : run lexis st' s <;> simp [hr]

/-- A character that ends no token only changes the state. -/
theorem run_shift {st st' : Scanning} {c : Char} (h : st.step lexis c = some ([], st'))
    (s : List Char) : run lexis st (c :: s) = run lexis st' s := by
  rw [run_cons, h, Option.bind_some]
  simp

/-- A token that ends before a character comes before what is read from that character on. -/
theorem run_endBefore {st : Scanning} {t : Token} {c : Char}
    (h : st.step lexis c = endBefore t c) (s : List Char) :
    run lexis st (c :: s) = (run lexis .between (c :: s)).map (t :: ·) := by
  have hstart : step lexis .between c = start c := rfl
  rw [run_cons, run_cons, h, endBefore, hstart]
  cases start c with
  | none => rfl
  | some r => cases hr : run lexis r.2 s <;> simp [hr]

end Scanning

open Scanning

/-- A piece of a statement before a character at which it may end. The scanner reads the tokens of
the piece and goes on with the character; and it reads nothing from a part of the piece that is cut
off before a NUL character. -/
structure Reads (lexis : Lexis) (s : List Char) (tokens : List Token) (stop : Char → Prop) :
    Prop where
  run : ∀ c, stop c → ∀ rest,
    run lexis .between (s ++ c :: rest) = (run lexis .between (c :: rest)).map (tokens ++ ·)
  cut : ∀ p q, s = p ++ '\x00' :: q → Scanning.run lexis .between p = none

def anywhere : Char → Prop := fun _ => True

namespace Reads

variable {lexis : Lexis} {s s' : List Char} {tokens tokens' : List Token}
  {stop stop' : Char → Prop}

theorem weaken (h : Reads lexis s tokens stop) (hs : ∀ c, stop' c → stop c) :
    Reads lexis s tokens stop' := ⟨fun c hc => h.run c (hs c hc), h.cut⟩

theorem of_run (hrun : ∀ c, stop c → ∀ rest, Scanning.run lexis .between (s ++ c :: rest) =
    (Scanning.run lexis .between (c :: rest)).map (tokens ++ ·)) (hs : '\x00' ∉ s) :
    Reads lexis s tokens stop := by
  refine ⟨hrun, ?_⟩
  rintro p q rfl
  exact absurd (by simp) hs

theorem ne_nil (h : Reads lexis s tokens stop) (hs : stop '\n') (ht : tokens ≠ []) : s ≠ [] := by
  rintro rfl
  have hrun := h.run '\n' hs []
  have hgap : Scanning.run lexis .between ['\n'] = some [] := rfl
  rw [List.nil_append, hgap, Option.map_some, List.append_nil] at hrun
  exact ht (Option.some.inj hrun).symm

/-- Two pieces may follow each other if the second begins with a character at which the first one
may end. -/
theorem append (h : Reads lexis s tokens stop) (h' : Reads lexis s' tokens' stop')
    (hs : ∃ c rest, s' = c :: rest ∧ stop c) :
    Reads lexis (s ++ s') (tokens ++ tokens') stop' := by
  obtain ⟨d, tail, rfl, hd⟩ := hs
  constructor
  · intro c hc rest
    have h1 := h.run d hd (tail ++ c :: rest)
    have h2 := h'.run c hc rest
    rw [List.cons_append] at h2
    rw [List.append_assoc, List.cons_append, h1, h2, Option.map_map]
    congr 1
    funext ts
    simp
  · intro p q hpq
    -- The cut falls into the second piece, or else into the first one.
    rcases List.append_eq_append_iff.mp hpq with ⟨p', rfl, hp'⟩ | ⟨t, hst, ht⟩
    · have hnone := h'.cut p' q hp'
      cases p' with
      | nil =>
        rw [Scanning.run] at hnone
        cases hnone
      | cons e p' =>
        have he : e = d := by simpa using (congrArg List.head? hp').symm
        rw [he] at hnone ⊢
        rw [h.run d hd p', hnone]
        rfl
    · cases t with
      | nil =>
        rw [List.nil_append] at ht
        have hnone := h'.cut [] q ht.symm
        rw [Scanning.run] at hnone
        cases hnone
      | cons e t =>
        rw [List.cons_append] at ht
        obtain ⟨rfl, -⟩ := List.cons.inj ht
        exact h.cut p t hst

end Reads

namespace Scanning

variable {lexis : Lexis}

/-- The tokens that a text ends, and the state after it. -/
def feed (lexis : Lexis) : Scanning → List Char → Option (List Token × Scanning)
  | st, [] => some ([], st)
  | st, c :: s =>
    match st.step lexis c with
    | none => none
    | some (tokens, st') =>
      match feed lexis st' s with
      | none => none
      | some (tokens', st'') => some (tokens ++ tokens', st'')

theorem run_of_feed {st st' : Scanning} {s : List Char} {tokens : List Token}
    (h : feed lexis st s = some (tokens, st')) (rest : List Char) :
    run lexis st (s ++ rest) = (run lexis st' rest).map (tokens ++ ·) := by
  induction s generalizing st tokens with
  | nil =>
    cases h
    simp
  | cons c s ih =>
    rw [feed] at h
    cases hc : st.step lexis c with
    | none =>
      rw [hc] at h
      cases h
    | some r =>
      obtain ⟨tokens₁, st₁⟩ := r
      rw [hc] at h
      dsimp only at h
      cases hs : feed lexis st₁ s with
      | none =>
        rw [hs] at h
        cases h
      | some r =>
        obtain ⟨tokens₂, st₂⟩ := r
        rw [hs] at h
        cases h
        rw [List.cons_append, run_cons, hc, Option.bind_some, ih hs, Option.map_map]
        congr 1
        funext ts
        simp

end Scanning

namespace Reads

variable {lexis : Lexis}

/-- A fixed text that ends no token in its midst. -/
theorem fixed {s : List Char} {tokens : List Token}
    (h : feed lexis .between s = some (tokens, .between)) (hs : '\x00' ∉ s) :
    Reads lexis s tokens anywhere := of_run (fun _ _ _ => run_of_feed h _) hs

/-- Pieces with a fixed text at the end are a whole text. -/
theorem scan_append {s last : List Char} {tokens tokens' : List Token} {stop : Char → Prop}
    (h : Reads lexis s tokens stop) (hlast : feed lexis .between last = some (tokens', .between))
    (hs : ∃ c rest, last = c :: rest ∧ stop c) :
    scan lexis (s ++ last) = some (tokens ++ tokens') := by
  obtain ⟨c, rest, rfl, hc⟩ := hs
  have hrun := run_of_feed hlast []
  rw [List.append_nil] at hrun
  rw [scan, h.run c hc rest, hrun]
  simp [Scanning.run, finish]

theorem word {w rev : List Char} (h : feed lexis .between w = some ([], .word rev))
    (hw : '\x00' ∉ w) :
    Reads lexis w [.word (String.ofList rev.reverse)] fun c => isWordPart c = false := by
  apply of_run _ hw
  intro c hc rest
  have hstep : step lexis (.word rev) c = endBefore (.word (String.ofList rev.reverse)) c := by
    rw [step, hc]
    rfl
  rw [run_of_feed h, run_endBefore hstep, Option.map_map]
  rfl

variable (lexis) in
/-- An operator before anything that does not make a comment of it. -/
theorem operator (op : CaseUpdate.Operator) :
    Reads lexis [op.symbol] [.mark op.symbol] fun c => c ≠ '-' ∧ c ≠ '*' := by
  cases op with
  | subtract =>
    refine of_run (fun c hc rest => ?_) (by decide)
    have hstep : step lexis .dash c = endBefore (.mark '-') c := if_neg hc.1
    exact (run_shift rfl _).trans (run_endBefore hstep rest)
  | divide =>
    refine of_run (fun c hc rest => ?_) (by decide)
    have hstep : step lexis .slash c = endBefore (.mark '/') c := if_neg hc.2
    exact (run_shift rfl _).trans (run_endBefore hstep rest)
  | add => exact (fixed rfl (by decide)).weaken fun _ _ => trivial
  | multiply => exact (fixed rfl (by decide)).weaken fun _ _ => trivial
  | modulo => exact (fixed rfl (by decide)).weaken fun _ _ => trivial

end Reads

section Names

variable {lexis : Lexis} {style : NameStyle}

/-- Whether a quoted name ends where it should: its delimiters are doubled and may be, or it has
none. -/
def Lexis.Quotes (lexis : Lexis) (style : NameStyle) (name : List Char) : Prop :=
  lexis.doubled style ∨ style.closing ∉ name

theorem Lexis.Quotes.tail {c : Char} {name : List Char} (h : lexis.Quotes style (c :: name)) :
    lexis.Quotes style name := h.imp_right fun hc hmem => hc (List.mem_cons_of_mem _ hmem)

theorem Lexis.Quotes.doubled {name : List Char} (h : lexis.Quotes style (style.closing :: name)) :
    lexis.doubled style := h.resolve_right fun hc => hc List.mem_cons_self

theorem step_name_closing (hd : lexis.doubled style) (rev : List Char) :
    step lexis (.name style rev) style.closing = some ([], .nameClose style rev) := by
  rw [step, if_pos rfl, if_pos hd]

/-- The closing delimiter ends a name if none follows it. -/
theorem run_name_closing (rev : List Char) {c : Char} (hc : c ≠ style.closing) (rest : List Char) :
    run lexis (.name style rev) (style.closing :: c :: rest) =
      (run lexis .between (c :: rest)).map (.name style (String.ofList rev.reverse) :: ·) := by
  cases hd : lexis.doubled style with
  | true =>
    have hend : step lexis (.nameClose style rev) c =
        endBefore (.name style (String.ofList rev.reverse)) c := by rw [step, if_neg hc]
    rw [run_shift (step_name_closing hd rev), run_endBefore hend]
  | false =>
    have hend : step lexis (.name style rev) style.closing =
        some ([.name style (String.ofList rev.reverse)], .between) := by
      rw [step, if_pos rfl, hd]
      rfl
    rw [run_cons, hend, Option.bind_some]
    rfl

theorem step_nameClose_closing (rev : List Char) :
    step lexis (.nameClose style rev) style.closing =
      some ([], .name style (style.closing :: rev)) := by rw [step, if_pos rfl]

theorem step_name_plain {c : Char} (hc : ¬ c = style.closing) (rev : List Char) :
    step lexis (.name style rev) c = some ([], .name style (c :: rev)) := by rw [step, if_neg hc]

theorem closing_ne_nul (style : NameStyle) : style.closing ≠ '\x00' := by cases style <;> decide

theorem run_nameChars {n : List Char} (hn : lexis.Quotes style n) (rev rest : List Char) :
    run lexis (.name style rev) (n.flatMap style.nameChar ++ rest) =
      run lexis (.name style (n.reverse ++ rev)) rest := by
  induction n generalizing rev with
  | nil => rfl
  | cons c n ih =>
    have hrev : (c :: n).reverse ++ rev = n.reverse ++ c :: rev := by simp
    rw [List.flatMap_cons, List.append_assoc, hrev, ← ih hn.tail (c :: rev), NameStyle.nameChar]
    by_cases hc : c = style.closing
    · subst hc
      rw [if_pos rfl, List.cons_append, List.cons_append, run_shift (step_name_closing hn.doubled rev),
        run_shift (step_nameClose_closing rev)]
      rfl
    · rw [if_neg hc, List.cons_append, run_shift (step_name_plain hc rev)]
      rfl

/-- A name that is cut off before a NUL character is still open there. -/
theorem run_nameChars_cut {n : List Char} (hn : lexis.Quotes style n) (rev p q : List Char)
    (h : n.flatMap style.nameChar = p ++ '\x00' :: q) : run lexis (.name style rev) p = none := by
  induction n generalizing rev p with
  | nil => simp at h
  | cons c n ih =>
    cases p with
    | nil => rfl
    | cons d p =>
      rw [List.flatMap_cons, NameStyle.nameChar] at h
      by_cases hc : c = style.closing
      · subst hc
        rw [if_pos rfl] at h
        cases p with
        | nil =>
          simp only [List.cons_append, List.nil_append, List.cons.injEq] at h
          exact absurd h.2.1 (closing_ne_nul style)
        | cons e p =>
          simp only [List.cons_append, List.nil_append, List.cons.injEq] at h
          obtain ⟨rfl, rfl, h⟩ := h
          rw [run_shift (step_name_closing hn.doubled rev), run_shift (step_nameClose_closing rev)]
          exact ih hn.tail _ p h
      · rw [if_neg hc] at h
        simp only [List.cons_append, List.nil_append, List.cons.injEq] at h
        obtain ⟨rfl, h⟩ := h
        rw [run_shift (step_name_plain hc rev)]
        exact ih hn.tail _ p h

/-- Where a NUL character stands in a text, it stands before the last character if that is another
one. -/
theorem exists_of_concat {s p q : List Char} {d : Char} (hd : d ≠ '\x00')
    (h : s ++ [d] = p ++ '\x00' :: q) : ∃ q', s = p ++ '\x00' :: q' := by
  rcases List.append_eq_append_iff.mp h with ⟨p', -, hp'⟩ | ⟨t, ht, hq⟩
  · cases p' with
    | nil => exact absurd (List.cons.inj hp').1 hd
    | cons e p' =>
      have hlen := congrArg List.length hp'
      simp at hlen
  · cases t with
    | nil => exact absurd (List.cons.inj hq).1.symm hd
    | cons e t =>
      obtain ⟨rfl, -⟩ := List.cons.inj hq
      exact ⟨t, ht⟩

theorem step_opening (style : NameStyle) :
    step lexis .between style.opening = some ([], .name style []) := by
  cases style <;> rfl

/-- A quoted name is one token, which is the name. -/
theorem Reads.name {s : String} (hs : lexis.Quotes style s.toList) :
    Reads lexis (style.quoteChars s) [.name style s] fun c => c ≠ style.closing := by
  constructor
  · intro c hc rest
    rw [NameStyle.quoteChars, List.cons_append, run_shift (step_opening style), List.append_assoc,
      run_nameChars hs, List.append_nil, List.singleton_append, run_name_closing _ hc]
    simp
  · intro p q h
    have hopening : style.opening ≠ '\x00' := by cases style <;> decide
    have h : style.opening :: (s.toList.flatMap style.nameChar ++ [style.closing]) =
        p ++ '\x00' :: q := h
    cases p with
    | nil => exact absurd (List.cons.inj h).1 hopening
    | cons d p =>
      obtain ⟨rfl, hp⟩ := List.cons.inj h
      obtain ⟨q', hq'⟩ := exists_of_concat (closing_ne_nul style) hp
      rw [run_shift (step_opening style)]
      exact run_nameChars_cut hs _ p q' hq'

end Names

section Texts

variable {lexis : Lexis}

theorem step_text_quote (rev : List Char) :
    step lexis (.text rev) apostrophe = some ([], .textQuote rev) := by rw [step, if_pos rfl]

theorem step_textQuote_quote (rev : List Char) :
    step lexis (.textQuote rev) apostrophe = some ([], .text (apostrophe :: rev)) := by
  rw [step, if_pos rfl]

theorem step_text_escape {c : Char} (hc : ¬ c = apostrophe)
    (h : c = '\\' ∧ lexis.literals = .backslash) (rev : List Char) :
    step lexis (.text rev) c = some ([], .textEscape rev) := by
  rw [step, if_neg hc, if_pos h]

theorem step_text_plain {c : Char} (hc : ¬ c = apostrophe)
    (h : ¬ (c = '\\' ∧ lexis.literals = .backslash)) (rev : List Char) :
    step lexis (.text rev) c = some ([], .text (c :: rev)) := by
  rw [step, if_neg hc, if_neg h]

/-- Within the quotes of a literal the scanner reads what the body of the literal denotes. -/
theorem run_body {body text : List Char} (h : lexis.literals.readBody body = some text)
    (rev rest : List Char) :
    run lexis (.text rev) (body ++ rest) = run lexis (.text (text.reverse ++ rev)) rest := by
  -- The cases are those of the reader; a pair that it reads at once is two steps of the scanner.
  fun_induction LiteralStyle.readBody lexis.literals body generalizing text rev with
  | case1 =>
    cases h
    rfl
  | case2 => cases h
  | case3 c hc =>
    cases h
    rw [not_or] at hc
    exact run_shift (step_text_plain hc.1 hc.2 rev) rest
  | case4 s ih =>
    obtain ⟨t, ht, rfl⟩ := Option.map_eq_some_iff.mp h
    rw [List.cons_append, List.cons_append, run_shift (step_text_quote rev),
      run_shift (step_textQuote_quote rev), ih ht]
    simp
  | case5 => cases h
  | case6 c d s hc hesc ih =>
    obtain ⟨t, ht, rfl⟩ := Option.map_eq_some_iff.mp h
    have hmeaning : step lexis (.textEscape rev) d = some ([], .text (backslashMeaning d :: rev)) :=
      rfl
    rw [List.cons_append, List.cons_append, run_shift (step_text_escape hc hesc rev),
      run_shift hmeaning, ih ht]
    simp
  | case7 c d s hc hesc ih =>
    obtain ⟨t, ht, rfl⟩ := Option.map_eq_some_iff.mp h
    rw [List.cons_append, run_shift (step_text_plain hc hesc rev), ih ht]
    simp

/-- A literal that is cut off before a NUL character is still open there. -/
theorem run_body_cut {body text : List Char} (h : lexis.literals.readBody body = some text)
    (rev p q : List Char) (hp : body = p ++ '\x00' :: q) : run lexis (.text rev) p = none := by
  have hquote : apostrophe ≠ '\x00' := by decide
  fun_induction LiteralStyle.readBody lexis.literals body generalizing text rev p with
  | case1 => simp at hp
  | case2 => cases h
  | case3 c hc =>
    cases p with
    | nil => rfl
    | cons d p => simp at hp
  | case4 s ih =>
    obtain ⟨t, ht, -⟩ := Option.map_eq_some_iff.mp h
    cases p with
    | nil => rfl
    | cons d p =>
      obtain ⟨hd, hp'⟩ := List.cons.inj hp
      cases p with
      | nil => exact absurd (List.cons.inj hp').1 hquote
      | cons e p =>
        obtain ⟨he, hrest⟩ := List.cons.inj hp'
        rw [← hd, ← he, run_shift (step_text_quote rev), run_shift (step_textQuote_quote rev)]
        exact ih ht _ p hrest
  | case5 => cases h
  | case6 c d s hc hesc ih =>
    obtain ⟨t, ht, -⟩ := Option.map_eq_some_iff.mp h
    cases p with
    | nil => rfl
    | cons e p =>
      obtain ⟨he, hp'⟩ := List.cons.inj hp
      rw [← he, run_shift (step_text_escape hc hesc rev)]
      cases p with
      | nil => rfl
      | cons f p =>
        obtain ⟨hf, hrest⟩ := List.cons.inj hp'
        have hmeaning : step lexis (.textEscape rev) d =
            some ([], .text (backslashMeaning d :: rev)) := rfl
        rw [← hf, run_shift hmeaning]
        exact ih ht _ p hrest
  | case7 c d s hc hesc ih =>
    obtain ⟨t, ht, -⟩ := Option.map_eq_some_iff.mp h
    cases p with
    | nil => rfl
    | cons e p =>
      obtain ⟨he, hrest⟩ := List.cons.inj hp
      rw [← he, run_shift (step_text_plain hc hesc rev)]
      exact ih ht _ p hrest

/-- A quoted body is one token, which is the text that the body denotes. -/
theorem Reads.text {body text : String} (h : lexis.literals.Denotes body text) :
    Reads lexis (apostrophe :: (body.toList ++ [apostrophe])) [.text text]
      fun c => c ≠ apostrophe := by
  have hopen : step lexis .between apostrophe = some ([], .text []) := rfl
  constructor
  · intro c hc rest
    have hend : step lexis (.textQuote text.toList.reverse) c = endBefore (.text text) c := by
      rw [step, if_neg hc, List.reverse_reverse, String.ofList_toList]
    rw [List.cons_append, run_shift hopen, List.append_assoc, run_body h, List.append_nil,
      List.singleton_append, run_shift (step_text_quote _), run_endBefore hend]
    simp
  · intro p q hpq
    have hquote : apostrophe ≠ '\x00' := by decide
    cases p with
    | nil => exact absurd (List.cons.inj hpq).1 hquote
    | cons d p =>
      obtain ⟨rfl, hp⟩ := List.cons.inj hpq
      obtain ⟨q', hq'⟩ := exists_of_concat hquote hp
      rw [run_shift hopen]
      exact run_body_cut h _ p q' hq'

end Texts

section Numerals

variable {lexis : Lexis}

theorem run_numeral {s : List Char} (hs : ∀ c ∈ s, c.isDigit ∨ c = '.') (rev rest : List Char) :
    run lexis (.numeral rev) (s ++ rest) = run lexis (.numeral (s.reverse ++ rev)) rest := by
  induction s generalizing rev with
  | nil => rfl
  | cons c s ih =>
    have hpart : isNumeralPart rev c := by
      rcases hs c (by simp) with h | rfl
      · simp [isNumeralPart, isWordPart, h]
      · simp [isNumeralPart]
    have hstep : step lexis (.numeral rev) c = some ([], .numeral (c :: rev)) := by
      rw [step, if_pos hpart]
    rw [List.cons_append, run_shift hstep, ih (fun d hd => hs d (by simp [hd]))]
    simp

theorem start_digit {c : Char} (hc : c.isDigit) : start c = some ([], .numeral [c]) := by
  have hne (d : Char) (hd : d.isDigit = false) : c ≠ d := by
    rintro rfl
    rw [hc] at hd
    cases hd
  have hgap : isGap c = false := by
    simp [isGap, hne ' ' rfl, hne '\t' rfl, hne '\n' rfl, hne '\r' rfl, hne '\x0c' rfl]
  have hmark : isMark c = false := by
    simp [isMark, hne '(' rfl, hne ')' rfl, hne ',' rfl, hne ';' rfl, hne '=' rfl, hne '+' rfl,
      hne '*' rfl, hne '%' rfl]
  simp [start, hgap, hmark, hne '-' rfl, hne '/' rfl, hne apostrophe rfl, hc]

/-- The end of a line or a bracket ends any numeral. -/
theorem Reads.numeral {s : List Char} (hs : IsPositional s) :
    Reads lexis s [.numeral (String.ofList s)] fun c => c = '\n' ∨ c = ')' := by
  apply Reads.of_run
  · intro c hc rest
    obtain ⟨d, tail, rfl, hd⟩ := hs.head
    have hopen : step lexis .between d = some ([], .numeral [d]) := start_digit hd
    have hpart : isNumeralPart (tail.reverse ++ [d]) c = false := by
      rcases hc with rfl | rfl <;> simp [isNumeralPart, isWordPart, isWordStart]
    have htoken : numeralToken (tail.reverse ++ [d]) =
        some (.numeral (String.ofList (d :: tail))) := by
      have hrev : (tail.reverse ++ [d]).reverse = d :: tail := by simp
      rw [numeralToken, hrev, if_pos hs.isSome_readNumeral]
    have hend : step lexis (.numeral (tail.reverse ++ [d])) c =
        endBefore (.numeral (String.ofList (d :: tail))) c := by
      rw [step, hpart, htoken]
      rfl
    rw [List.cons_append, run_shift hopen, run_numeral (fun e he => hs.mem (by simp [he])),
      run_endBefore hend]
    simp
  · intro hmem
    rcases hs.mem hmem with h | h <;> exact absurd h (by decide)

end Numerals

end CaseUpdate.Sql
