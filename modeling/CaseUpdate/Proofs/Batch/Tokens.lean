import CaseUpdate.Proofs.Batch.Plan
import CaseUpdate.Proofs.Sql.Scan

namespace CaseUpdate

open Sql (Token Lexis Reads anywhere)

namespace Operand

def magnitudeChars : Operand → List Char
  | .int n => Nat.toDigits 10 n.natAbs
  | .float (.nan _) => "NaN".toList
  | .float (.infinite _) => "inf".toList
  | .float (.finite _ x) => x.plain

/-- Whether an operand is written with a minus of its own. -/
def isSigned : Operand → Bool
  | .float (.nan _) => false
  | x => x.isNegative

/-- The token of an operand without its sign. What is no number is a word. -/
def magnitudeToken : Operand → Token
  | .int n => .numeral (String.ofList (Nat.toDigits 10 n.natAbs))
  | .float (.nan _) => .word "NaN"
  | .float (.infinite _) => .word "inf"
  | .float (.finite _ x) => .numeral (String.ofList x.plain)

def signedTokens (x : Operand) : List Token :=
  if x.isSigned then [.mark '-', x.magnitudeToken] else [x.magnitudeToken]

/-- The tokens of an operand, with brackets where its sign bit is set. -/
def tokens (x : Operand) : List Token :=
  if x.isNegative then .mark '(' :: (x.signedTokens ++ [.mark ')']) else x.signedTokens

theorem chars_eq (x : Operand) : x.chars = Decimal.signed x.isSigned x.magnitudeChars := by
  cases x with
  | int n => rfl
  | float x => cases x <;> rfl

variable {lexis : Lexis}

/-- Where an operand may end: at the end of a line or at a bracket. -/
def ends (c : Char) : Prop := c = '\n' ∨ c = ')'

theorem not_isWordPart_of_ends {c : Char} (hc : ends c) : Sql.isWordPart c = false := by
  rcases hc with rfl | rfl <;> decide

theorem reads_magnitude (x : Operand) : Reads lexis x.magnitudeChars [x.magnitudeToken] ends := by
  cases x with
  | int n =>
    have hdigits := Decimal.allDigits_toDigits n.natAbs
    exact Reads.numeral (hdigits.isPositional Nat.toDigits_ne_nil)
  | float x =>
    cases x with
    | nan negative =>
      have hfeed : Sql.Scanning.feed lexis .between "NaN".toList =
          some ([], .word ['N', 'a', 'N']) := rfl
      exact (Reads.word hfeed (by decide)).weaken fun _ => not_isWordPart_of_ends
    | infinite negative =>
      have hfeed : Sql.Scanning.feed lexis .between "inf".toList =
          some ([], .word ['f', 'n', 'i']) := rfl
      exact (Reads.word hfeed (by decide)).weaken fun _ => not_isWordPart_of_ends
    | finite negative x => exact Reads.numeral x.isPositional_plain

/-- No operand begins with a character that makes a comment of the operator before it. -/
theorem magnitudeChars_head (x : Operand) :
    ∃ c rest, x.magnitudeChars = c :: rest ∧ c ≠ '-' ∧ c ≠ '*' := by
  have hpositional {s : List Char} (hs : Decimal.IsPositional s) :
      ∃ c rest, s = c :: rest ∧ c ≠ '-' ∧ c ≠ '*' := by
    obtain ⟨c, rest, hc, hd⟩ := hs.head
    refine ⟨c, rest, hc, ?_, ?_⟩
    · rintro rfl
      exact absurd hd (by decide)
    · rintro rfl
      exact absurd hd (by decide)
  cases x with
  | int n =>
    exact hpositional ((Decimal.allDigits_toDigits n.natAbs).isPositional Nat.toDigits_ne_nil)
  | float x =>
    cases x with
    | nan negative => exact ⟨'N', ['a', 'N'], rfl, by decide, by decide⟩
    | infinite negative => exact ⟨'i', ['n', 'f'], rfl, by decide, by decide⟩
    | finite negative x => exact hpositional x.isPositional_plain

theorem reads_chars (x : Operand) : Reads lexis x.chars x.signedTokens ends := by
  obtain ⟨c, rest, hc, hminus, hstar⟩ := x.magnitudeChars_head
  rw [chars_eq, signedTokens]
  cases x.isSigned with
  | false => exact x.reads_magnitude
  | true =>
    have hminusSign := Reads.operator lexis .subtract
    exact hminusSign.append x.reads_magnitude ⟨c, rest, hc, hminus, hstar⟩

theorem isSigned_eq_false {x : Operand} (h : x.isNegative = false) : x.isSigned = false := by
  cases x with
  | int n => exact h
  | float x => cases x <;> first | rfl | exact h

variable (lexis) in
/-- Brackets stand around an operand with a sign, so what follows the operator is never a second
minus. -/
theorem reads_bracketed (x : Operand) :
    Reads lexis (if x.isNegative then '(' :: (x.chars ++ [')']) else x.chars) x.tokens ends ∧
    ∃ c rest, (if x.isNegative then '(' :: (x.chars ++ [')']) else x.chars) = c :: rest ∧
      c ≠ '-' ∧ c ≠ '*' := by
  cases h : x.isNegative with
  | false =>
    obtain ⟨c, rest, hc, hne⟩ := x.magnitudeChars_head
    have hchars : x.chars = x.magnitudeChars := by
      rw [chars_eq, isSigned_eq_false h]
      rfl
    have htokens : x.tokens = x.signedTokens := if_neg (by simp [h])
    rw [htokens]
    exact ⟨x.reads_chars, c, rest, hchars.trans hc, hne⟩
  | true =>
    have htokens : x.tokens = [.mark '('] ++ (x.signedTokens ++ [.mark ')']) := if_pos h
    have hclose : Reads lexis [')'] [.mark ')'] anywhere := Reads.fixed rfl (by decide)
    have hopen : Reads lexis ['('] [.mark '('] anywhere := Reads.fixed rfl (by decide)
    have hinner := x.reads_chars.append hclose ⟨')', [], rfl, .inr rfl⟩
    obtain ⟨c, rest, hc⟩ := List.exists_cons_of_ne_nil (l := x.chars ++ [')']) (by simp)
    have hall := hopen.append hinner ⟨c, rest, hc, trivial⟩
    rw [htokens]
    exact ⟨hall.weaken fun _ _ => trivial, '(', _, rfl, by decide, by decide⟩

end Operand

namespace Batch

def joined (separator : List Token) : List (List Token) → List Token
  | [] => []
  | [t] => t
  | t :: rest => t ++ separator ++ joined separator rest

def NewValue.tokens (style : Sql.NameStyle) (column : String) : NewValue → List Token
  | .null => [.word "NULL"]
  | .text s => [.text s]
  | .step s => .name style column :: .mark s.operator.symbol :: s.operand.tokens

namespace Plan

variable (p : Plan)

/-- `WHEN lookup = key THEN value`. -/
def branchTokens (column : String) (b : String × NewValue) : List Token :=
  [Token.word "WHEN", .name p.style p.lookup, .mark '=', .text b.1, .word "THEN"] ++
    b.2.tokens p.style column

/-- `column = (CASE branches ELSE column END)`. -/
def blockTokens (b : String × List (String × NewValue)) : List Token :=
  [Token.name p.style b.1, .mark '=', .mark '(', .word "CASE"] ++
    b.2.flatMap (p.branchTokens b.1) ++
    [Token.word "ELSE", .name p.style b.1, .word "END", .mark ')']

/-- `UPDATE table SET blocks WHERE lookup IN (keys);`, where the table and the last lookup stand in
double quotes. -/
def tokens : List Token :=
  [Token.word "UPDATE", .name .doubleQuote p.table, .word "SET"] ++
    joined [Token.mark ','] (p.blocks.map p.blockTokens) ++
    [Token.word "WHERE", .name .doubleQuote p.lookup, .word "IN", .mark '('] ++
    joined [Token.mark ','] (p.keys.map fun key => [Token.text key]) ++ [Token.mark ')', .mark ';']

end Plan

section Pieces

variable {lexis : Lexis}

theorem reads_separated {separator : List Char} {separatorTokens : List Token}
    {stop : Char → Prop} (hsep : Reads lexis separator separatorTokens anywhere)
    (hstop : ∃ c rest, separator = c :: rest ∧ stop c) {pieces : List (List Char)}
    {tokens : List (List Token)} (hne : tokens ≠ [])
    (h : List.Forall₂ (fun s ts => Reads lexis s ts stop ∧ s ≠ []) pieces tokens) :
    Reads lexis (separated separator pieces) (joined separatorTokens tokens) stop ∧
      separated separator pieces ≠ [] := by
  induction h with
  | nil => exact absurd rfl hne
  | @cons s ts pieces tokens hs hrest ih =>
    cases hrest with
    | nil => exact hs
    | @cons s' ts' pieces tokens hs' hrest =>
      obtain ⟨hreads, hnil⟩ := ih (by simp)
      obtain ⟨c, rest, hc⟩ := List.exists_cons_of_ne_nil hnil
      refine ⟨?_, by simp [separated, hs.2]⟩
      exact (hs.1.append hsep hstop).append hreads ⟨c, rest, hc, trivial⟩

theorem joined_nil (tokens : List (List Token)) : joined [] tokens = tokens.flatten := by
  induction tokens with
  | nil => rfl
  | cons t rest ih =>
    cases rest with
    | nil => simp [joined]
    | cons t' rest =>
      change t ++ [] ++ joined [] (t' :: rest) = _
      rw [ih, List.append_nil]
      rfl

def newline (c : Char) : Prop := c = '\n'

/-- A character that closes no name. -/
def outsideNames (c : Char) : Prop := ∀ style : Sql.NameStyle, c ≠ style.closing

theorem outsideNames_symbol (op : Operator) : outsideNames op.symbol := by
  intro style
  cases op <;> cases style <;> decide

variable {st : Statement}

theorem reads_step {column : String} (hd : lexis.Quotes st.style column.toList) (s : Step) :
    Reads lexis (st.stepChars column s) ((NewValue.step s).tokens st.style column) newline := by
  have hname := Reads.name hd
  have hoperator := Reads.operator lexis s.operator
  obtain ⟨hoperand, hhead⟩ := s.operand.reads_bracketed lexis
  have hstep := hname.append (hoperator.append hoperand hhead)
    ⟨_, _, rfl, outsideNames_symbol s.operator st.style⟩
  exact hstep.weaken fun _ => .inl

theorem reads_assigned {column : String} (hd : lexis.Quotes st.style column.toList)
    (hraw : st.raw = false) {a : Assigned} {v : NewValue} (h : a.Denotes lexis.literals v) :
    Reads lexis (st.assignedChars column a) (v.tokens st.style column) newline := by
  cases a with
  | null =>
    cases v with
    | null =>
      have hfeed : Sql.Scanning.feed lexis .between "NULL".toList =
          some ([], .word ['L', 'L', 'U', 'N']) := rfl
      exact (Reads.word hfeed (by decide)).weaken fun c hc => by
        rw [hc]
        decide
    | text s => exact h.elim
    | step s => exact h.elim
  | literal body =>
    cases v with
    | null => exact h.elim
    | text s =>
      have hchars : st.assignedChars column (.literal body) = quotedBody body := by
        simp [Statement.assignedChars, hraw]
      rw [hchars]
      exact (Reads.text h).weaken fun c hc => by
        rw [hc]
        decide
    | step s => exact h.elim
  | step s =>
    cases v with
    | null => exact h.elim
    | text s => exact h.elim
    | step s' =>
      cases h
      exact reads_step hd s

variable {p : Plan}

theorem reads_fixed {s : String} {tokens : List Token}
    (h : Sql.Scanning.feed lexis .between s.toList = some (tokens, .between))
    (hs : '\x00' ∉ s.toList) : Reads lexis s.toList tokens anywhere := Reads.fixed h hs

theorem reads_branch {column : String} (hd : lexis.Quotes st.style column.toList)
    (hl : lexis.Quotes st.style st.lookup.toList) (hraw : st.raw = false)
    (hstyle : st.style = p.style) (hlookup : st.lookup = p.lookup) {b : Branch}
    {v : String × NewValue} (h : b.Denotes lexis.literals v) :
    Reads lexis (st.branchChars column b) (p.branchTokens column v) newline := by
  have hwhen : Reads lexis "WHEN ".toList [.word "WHEN"] anywhere := reads_fixed rfl (by decide)
  have heq : Reads lexis " = ".toList [.mark '='] anywhere := reads_fixed rfl (by decide)
  have hthen : Reads lexis " THEN ".toList [.word "THEN"] anywhere := reads_fixed rfl (by decide)
  have hname := Reads.name hl
  have hkey := Reads.text h.1
  have hvalue := reads_assigned hd hraw h.2
  have hspace : ' ' ≠ st.style.closing := by cases st.style <;> decide
  have hvalueTokens : v.2.tokens st.style column ≠ [] := by cases v.2 <;> simp [NewValue.tokens]
  obtain ⟨c, rest, hc⟩ := List.exists_cons_of_ne_nil (hvalue.ne_nil rfl hvalueTokens)
  have h1 := hwhen.append hname ⟨_, _, rfl, trivial⟩
  have h2 := h1.append heq ⟨' ', _, rfl, hspace⟩
  have h3 := h2.append hkey ⟨_, _, rfl, trivial⟩
  have h4 := h3.append hthen ⟨' ', _, rfl, by decide⟩
  have h5 := h4.append hvalue ⟨c, rest, hc, trivial⟩
  rw [Plan.branchTokens, ← hstyle, ← hlookup]
  exact h5

theorem reads_branches {column : String} (hd : lexis.Quotes st.style column.toList)
    (hl : lexis.Quotes st.style st.lookup.toList) (hraw : st.raw = false)
    (hstyle : st.style = p.style) (hlookup : st.lookup = p.lookup) {branches : List Branch}
    {values : List (String × NewValue)} (hne : values ≠ [])
    (h : List.Forall₂ (Branch.Denotes lexis.literals) branches values) :
    Reads lexis (separated ['\n'] (branches.map (st.branchChars column)))
      (values.flatMap (p.branchTokens column)) newline ∧
    separated ['\n'] (branches.map (st.branchChars column)) ≠ [] := by
  have hline : Reads lexis ['\n'] [] anywhere := Reads.fixed rfl (by decide)
  have hvalues : values.map (p.branchTokens column) ≠ [] := by simpa using hne
  have hall : List.Forall₂ (fun s ts => Reads lexis s ts newline ∧ s ≠ [])
      (branches.map (st.branchChars column)) (values.map (p.branchTokens column)) := by
    rw [List.forall₂_map_left_iff, List.forall₂_map_right_iff]
    apply h.imp
    intro b v hb
    have hreads := reads_branch hd hl hraw hstyle hlookup hb
    exact ⟨hreads, hreads.ne_nil rfl (by simp [Plan.branchTokens])⟩
  have hstop : ∃ c rest, ['\n'] = c :: rest ∧ newline c := ⟨'\n', [], rfl, rfl⟩
  have hsep := reads_separated hline hstop hvalues hall
  rwa [joined_nil] at hsep

theorem reads_block {b : Block} (hd : lexis.Quotes st.style b.column.toList)
    (hl : lexis.Quotes st.style st.lookup.toList) (hraw : st.raw = false)
    (hstyle : st.style = p.style) (hlookup : st.lookup = p.lookup)
    {v : String × List (String × NewValue)} (hne : v.2 ≠ []) (h : b.Denotes lexis.literals v) :
    Reads lexis (st.blockChars b) (p.blockTokens v) anywhere ∧ st.blockChars b ≠ [] := by
  obtain ⟨hcolumn, hbranches⟩ := h
  have hcase : Reads lexis " = (CASE\n".toList [.mark '=', .mark '(', .word "CASE"] anywhere :=
    reads_fixed rfl (by decide)
  have helse : Reads lexis "\nELSE ".toList [.word "ELSE"] anywhere := reads_fixed rfl (by decide)
  have hend : Reads lexis " END)".toList [.word "END", .mark ')'] anywhere :=
    reads_fixed rfl (by decide)
  have hname := Reads.name hd
  obtain ⟨hall, hnil⟩ := reads_branches hd hl hraw hstyle hlookup hne hbranches
  obtain ⟨c, rest, hc⟩ := List.exists_cons_of_ne_nil hnil
  have hspace : ' ' ≠ st.style.closing := by cases st.style <;> decide
  have h1 := hname.append hcase ⟨' ', _, rfl, hspace⟩
  have h2 := h1.append hall ⟨c, rest, hc, trivial⟩
  have h3 := h2.append helse ⟨'\n', _, rfl, rfl⟩
  have h4 := h3.append hname ⟨_, _, rfl, trivial⟩
  have h5 := h4.append hend ⟨' ', _, rfl, hspace⟩
  refine ⟨?_, by simp [Statement.blockChars, Sql.NameStyle.quoteChars]⟩
  have htokens : p.blockTokens v =
      [Token.name st.style b.column] ++ [Token.mark '=', .mark '(', .word "CASE"] ++
        v.2.flatMap (p.branchTokens b.column) ++ [Token.word "ELSE"] ++
        [Token.name st.style b.column] ++ [Token.word "END", .mark ')'] := by
    rw [Plan.blockTokens, ← hstyle, ← hcolumn]
    simp
  rw [htokens]
  exact h5

theorem reads_keys {keys texts : List String} (hne : texts ≠ [])
    (h : List.Forall₂ lexis.literals.Denotes keys texts) :
    Reads lexis (separated [','] (keys.map quotedBody))
      (joined [.mark ','] (texts.map fun t => [.text t])) (fun c => c ≠ Sql.apostrophe) ∧
    separated [','] (keys.map quotedBody) ≠ [] := by
  have hcomma : Reads lexis [','] [.mark ','] anywhere := Reads.fixed rfl (by decide)
  apply reads_separated hcomma ⟨',', [], rfl, by decide⟩ (by simpa using hne)
  rw [List.forall₂_map_left_iff, List.forall₂_map_right_iff]
  apply h.imp
  intro key text hkey
  exact ⟨Reads.text hkey, by simp [quotedBody]⟩

theorem reads_blocks (hd : ∀ b ∈ st.blocks, lexis.Quotes st.style b.column.toList)
    (hl : lexis.Quotes st.style st.lookup.toList) (hraw : st.raw = false) (hp : p.Filled)
    (h : st.Denotes lexis.literals p) :
    Reads lexis (separated "\n,".toList (st.blocks.map st.blockChars))
      (joined [.mark ','] (p.blocks.map p.blockTokens)) anywhere ∧
    separated "\n,".toList (st.blocks.map st.blockChars) ≠ [] := by
  have hcomma : Reads lexis "\n,".toList [.mark ','] anywhere := reads_fixed rfl (by decide)
  apply reads_separated hcomma ⟨'\n', _, rfl, trivial⟩ (by simpa using hp.blocks)
  rw [List.forall₂_map_left_iff, List.forall₂_map_right_iff]
  have hne := hp.branches
  have hall := h.blocks
  generalize p.blocks = values at hne hall ⊢
  generalize st.blocks = blocks at hd hall ⊢
  induction hall with
  | nil => exact .nil
  | cons hb _ ih =>
    exact .cons (reads_block (hd _ (by simp)) hl hraw h.style_eq h.lookup (hne _ (by simp)) hb)
      (ih (fun v hv => hne v (by simp [hv])) fun b hb => hd b (by simp [hb]))

/-- The text of a statement is read as the tokens of its plan, and what is cut off before a NUL
character is not read at all. -/
theorem scan_quoted (hd : ∀ b ∈ st.blocks, lexis.Quotes st.style b.column.toList)
    (hl : lexis.Quotes st.style st.lookup.toList) (hq : lexis.doubled .doubleQuote)
    (hraw : st.raw = false) (hp : p.Filled) (h : st.Denotes lexis.literals p) :
    Sql.scan lexis st.chars = some p.tokens ∧
      ∀ cut rest, st.chars = cut ++ '\x00' :: rest → Sql.scan lexis cut = none := by
  have hupdate : Reads lexis "UPDATE ".toList [.word "UPDATE"] anywhere :=
    reads_fixed rfl (by decide)
  have hset : Reads lexis " SET ".toList [.word "SET"] anywhere := reads_fixed rfl (by decide)
  have hwhere : Reads lexis " WHERE ".toList [.word "WHERE"] anywhere := reads_fixed rfl (by decide)
  have hin : Reads lexis " IN(".toList [.word "IN", .mark '('] anywhere :=
    reads_fixed rfl (by decide)
  have hend : Reads lexis ");".toList [.mark ')', .mark ';'] anywhere := reads_fixed rfl (by decide)
  have hlast : Sql.Scanning.feed lexis .between ");".toList =
      some ([.mark ')', .mark ';'], .between) := rfl
  obtain ⟨hblocks, hblocksNil⟩ := reads_blocks hd hl hraw hp h
  obtain ⟨b, rest, hb⟩ := List.exists_cons_of_ne_nil hblocksNil
  obtain ⟨hkeys, hkeysNil⟩ := reads_keys hp.keys h.keys
  obtain ⟨k, rest', hk⟩ := List.exists_cons_of_ne_nil hkeysNil
  have hname (name : String) := Reads.name (s := name) (.inl hq)
  have h1 := hupdate.append (hname st.table) ⟨_, _, rfl, trivial⟩
  have h2 := h1.append hset ⟨' ', _, rfl, by decide⟩
  have h3 := h2.append hblocks ⟨b, rest, hb, trivial⟩
  have h4 := h3.append hwhere ⟨' ', _, rfl, trivial⟩
  have h5 := h4.append (hname st.lookup) ⟨_, _, rfl, trivial⟩
  have h6 := h5.append hin ⟨' ', _, rfl, by decide⟩
  have h7 := h6.append hkeys ⟨k, rest', hk, trivial⟩
  have h8 := h7.append hend ⟨')', _, rfl, by decide⟩
  have htokens : p.tokens =
      [Token.word "UPDATE"] ++ [Token.name .doubleQuote st.table] ++ [Token.word "SET"] ++
      joined [Token.mark ','] (p.blocks.map p.blockTokens) ++ [Token.word "WHERE"] ++
      [Token.name .doubleQuote st.lookup] ++ [Token.word "IN", .mark '('] ++
      joined [Token.mark ','] (p.keys.map fun key => [Token.text key]) ++
      [Token.mark ')', .mark ';'] := by
    rw [Plan.tokens, h.table, h.lookup]
    simp
  rw [htokens]
  exact ⟨h7.scan_append hlast ⟨')', _, rfl, by decide⟩, h8.cut⟩

theorem scan_chars (hd : lexis.doubled st.style) (hq : lexis.doubled .doubleQuote)
    (hraw : st.raw = false) (hp : p.Filled) (h : st.Denotes lexis.literals p) :
    Sql.scan lexis st.chars = some p.tokens ∧
      ∀ cut rest, st.chars = cut ++ '\x00' :: rest → Sql.scan lexis cut = none :=
  scan_quoted (fun _ _ => .inl hd) (.inl hd) hq hraw hp h

end Pieces

/-- Nothing breaks out of its quotes. By the lexical rules of the dialect the text of a batch is the
tokens of its plan and no others: every name is the name that was given, and every text is what one
key or one value denotes. -/
theorem Compiler.scan_compiled {k : Compiler} {options : Options} {inputs : List Input}
    {c : Compiled} (hraw : options.raw = false) (h : (k.compile options inputs).1 = .ok c) :
    ∃ rows, stampedRows k.target k.now inputs = .ok rows ∧
      Sql.scan k.target.dialect.lexis c.statement.sql.toList =
        some (planOf k.target (lookupColumn k.target options) rows).tokens := by
  obtain ⟨rows, hrows, hkeys, hcolumns, hc⟩ := Compiler.compile_eq_ok h
  obtain ⟨-, -, -, -, -, hr, -⟩ := compiledColumns_eq_ok hc
  have hst : c.statement.Denotes k.target.dialect.lexis.literals
      (planOf k.target (lookupColumn k.target options) rows) := denotes_planOf hkeys hc
  have hscan := (scan_chars rfl rfl (hr.trans hraw) (filled_planOf hcolumns) hst).1
  refine ⟨rows, hrows, ?_⟩
  rw [Statement.sql, String.toList_ofList]
  exact hscan

/-- A quote and a backslash at the end of a value, and a delimiter in a name. -/
theorem Compiler.scan_compiled_of_delimiters :
    ∃ rows, stampedRows (.ofTable "t" "id") ⟨⟨2024, 1, 1⟩, ⟨0, 0, 0, 0⟩⟩
        [.row (.ofList [("id", .scalar (.int 1)), ("a\x60", .scalar (.text "x'\\"))])] = .ok rows ∧
      Sql.scan Sql.Dialect.generic.lexis
          (String.toList ("UPDATE \"t\" SET \x60a\x60\x60\x60 = (CASE\nWHEN \x60id\x60 = '1' THEN " ++
            "'x\\'\\\\'\nELSE \x60a\x60\x60\x60 END) WHERE \"id\" IN('1');")) =
        some (planOf (.ofTable "t" "id") "id" rows).tokens := by
  have h : ((Compiler.new (.ofTable "t" "id") ⟨⟨2024, 1, 1⟩, ⟨0, 0, 0, 0⟩⟩).compile .default
      [.row (.ofList [("id", .scalar (.int 1)), ("a\x60", .scalar (.text "x'\\"))])]).1 =
      .ok ⟨⟨"t", "id", .backtick, false, [⟨"a\x60", [⟨"1", .literal "x\\'\\\\"⟩]⟩], ["1"]⟩,
        [.int 1]⟩ := rfl
  obtain ⟨rows, hrows, hscan⟩ := Compiler.scan_compiled rfl h
  exact ⟨rows, hrows, hscan⟩

end Batch

end CaseUpdate
