import CaseUpdate.Proofs.Batch.Tokens
import CaseUpdate.Sql.Update

namespace CaseUpdate

open Sql (Token Expr When Assignment Update)

/-- The value that an operand is read as. What is no number is read as a column. -/
def Operand.expr : Operand → Expr
  | .int n => .numeral (n < 0) (String.ofList (Nat.toDigits 10 n.natAbs))
  | .float (.nan _) => .column ⟨.backtick, "NaN"⟩
  | .float (.infinite negative) =>
    if negative then .negative (.column ⟨.backtick, "inf"⟩) else .column ⟨.backtick, "inf"⟩
  | .float (.finite negative x) => .numeral negative (String.ofList x.plain)

/-- Brackets around a value do not change it. -/
theorem readOperand_brackets {tokens rest : List Token} {e : Expr} {fuel : Nat}
    (h : Expr.readOperand (fuel + 1) (tokens ++ .mark ')' :: rest) =
      some (e, .mark ')' :: rest)) :
    Expr.readOperand (fuel + 3) (.mark '(' :: (tokens ++ .mark ')' :: rest)) = some (e, rest) := by
  have hclose : Operator.ofChar? ')' = none := rfl
  have hlinks : Expr.readLinks (fuel + 1) (.mark ')' :: rest) = some ([], .mark ')' :: rest) := by
    rw [Expr.readLinks, hclose]
  have hread : Expr.read (fuel + 2) (tokens ++ .mark ')' :: rest) =
      some (e, .mark ')' :: rest) := by
    simp [Expr.read, h, hlinks, Expr.chain, Expr.chain.join]
  simp [Expr.readOperand, hread]

namespace Operand

theorem readOperand_signedTokens (x : Operand) (fuel : Nat) (rest : List Token) :
    Expr.readOperand (fuel + 2) (x.signedTokens ++ rest) = some (x.expr, rest) := by
  have hinf : Expr.ofWord "inf" = .column ⟨.backtick, "inf"⟩ := by decide
  have hnan : Expr.ofWord "NaN" = .column ⟨.backtick, "NaN"⟩ := by decide
  cases x with
  | int n =>
    by_cases hn : n < 0 <;>
      simp [signedTokens, isSigned, isNegative, magnitudeToken, expr, Expr.readOperand, Expr.minus,
        hn]
  | float x =>
    cases x with
    | nan negative => simp [signedTokens, isSigned, magnitudeToken, expr, Expr.readOperand, hnan]
    | infinite negative =>
      cases negative <;>
        simp [signedTokens, isSigned, isNegative, Decimal.Double.isNegative, magnitudeToken, expr,
          Expr.readOperand, Expr.minus, hinf]
    | finite negative x =>
      cases negative <;>
        simp [signedTokens, isSigned, isNegative, Decimal.Double.isNegative, magnitudeToken, expr,
          Expr.readOperand, Expr.minus]

/-- An operand is read, with brackets around it or without. -/
theorem readOperand_tokens (x : Operand) (fuel : Nat) (rest : List Token) :
    Expr.readOperand (fuel + 4) (x.tokens ++ rest) = some (x.expr, rest) := by
  unfold tokens
  split_ifs
  · have hinner := x.readOperand_signedTokens fuel (.mark ')' :: rest)
    have hbrackets := readOperand_brackets hinner
    simpa using hbrackets
  · exact x.readOperand_signedTokens (fuel + 2) rest

end Operand

namespace Batch

/-- The value that a new value of a column is read as. -/
def NewValue.expr (style : Sql.NameStyle) (column : String) : NewValue → Expr
  | .null => .null
  | .text s => .text s
  | .step s => .binary s.operator (.column ⟨style, column⟩) s.operand.expr

namespace Plan

variable (p : Plan)

def whenOf (column : String) (b : String × NewValue) : When :=
  ⟨⟨p.style, p.lookup⟩, b.1, b.2.expr p.style column⟩

def assignmentOf (b : String × List (String × NewValue)) : Assignment :=
  ⟨⟨p.style, b.1⟩, b.2.map (p.whenOf b.1), ⟨p.style, b.1⟩⟩

def update : Update :=
  ⟨⟨.doubleQuote, p.table⟩, p.blocks.map p.assignmentOf, ⟨.doubleQuote, p.lookup⟩, p.keys⟩

end Plan

theorem NewValue.read_tokens (style : Sql.NameStyle) (column : String) (v : NewValue) (fuel : Nat)
    (w : String) (rest : List Token) :
    Expr.read (fuel + 8) (v.tokens style column ++ .word w :: rest) =
      some (v.expr style column, .word w :: rest) := by
  have hnull : Expr.ofWord "NULL" = .null := by decide
  cases v with
  | null => simp [NewValue.tokens, NewValue.expr, Expr.read, Expr.readOperand, Expr.readLinks,
      Expr.chain, Expr.chain.join, hnull]
  | text s => simp [NewValue.tokens, NewValue.expr, Expr.read, Expr.readOperand, Expr.readLinks,
      Expr.chain, Expr.chain.join]
  | step s =>
    have hop : Operator.ofChar? s.operator.symbol = some s.operator := by
      cases s.operator <;> rfl
    have hoperand := s.operand.readOperand_tokens (fuel + 2) (.word w :: rest)
    have hchain : Expr.chain none (.column ⟨style, column⟩) [(s.operator, s.operand.expr)] =
        .binary s.operator (.column ⟨style, column⟩) s.operand.expr := by
      cases s.operator <;> rfl
    simp [NewValue.tokens, NewValue.expr, Expr.read, Expr.readOperand, Expr.readLinks, hop,
      hoperand, hchain]

theorem NewValue.length_tokens_pos (style : Sql.NameStyle) (column : String) (v : NewValue) :
    0 < (v.tokens style column).length := by cases v <;> simp [NewValue.tokens]

namespace Plan

variable (p : Plan)

/-- A branch is followed by another one or by the other case. -/
theorem branches_head (column : String) (branches : List (String × NewValue)) (rest : List Token) :
    ∃ w tail, branches.flatMap (p.branchTokens column) ++ .word "ELSE" :: rest =
      .word w :: tail := by
  cases branches with
  | nil => exact ⟨_, _, rfl⟩
  | cons b branches => exact ⟨_, _, rfl⟩

theorem readAll_branches (column : String) (branches : List (String × NewValue)) (fuel : Nat)
    (hf : branches.length < fuel) (rest : List Token) (hrest : 2 ≤ rest.length) :
    When.readAll fuel (branches.flatMap (p.branchTokens column) ++ .word "ELSE" :: rest) =
      some (branches.map (p.whenOf column), .word "ELSE" :: rest) := by
  induction branches generalizing fuel with
  | nil =>
    obtain ⟨fuel, rfl⟩ := Nat.exists_eq_add_one_of_ne_zero (Nat.ne_of_gt hf)
    simp [When.readAll]
  | cons b branches ih =>
    obtain ⟨fuel, rfl⟩ := Nat.exists_eq_add_one_of_ne_zero (Nat.ne_of_gt (Nat.zero_lt_of_lt hf))
    have hmore := ih fuel (by simpa using hf)
    obtain ⟨w, tail, htail⟩ := p.branches_head column branches rest
    have hlength : 3 ≤ (.word w :: tail : List Token).length := by
      rw [← htail, List.length_append, List.length_cons]
      omega
    have hvalue := b.2.length_tokens_pos p.style column
    -- Reading a value takes eight units of fuel, which the tokens up to the next word grant.
    obtain ⟨n, hn⟩ : ∃ n,
        2 * (b.2.tokens p.style column ++ .word w :: tail).length + 2 = n + 8 := by
      rw [List.length_append]
      exact ⟨2 * ((b.2.tokens p.style column).length + (Token.word w :: tail).length) - 6, by omega⟩
    have hread := b.2.read_tokens p.style column n w tail
    rw [List.flatMap_cons, List.append_assoc, htail]
    rw [htail] at hmore
    simp only [branchTokens, List.cons_append, List.nil_append, When.readAll, if_true, and_self, hn,
      hread, Option.bind_eq_bind, Option.bind_some, hmore]
    rfl

theorem length_le_flatMap {α : Type} {f : α → List Token} (hf : ∀ a, 0 < (f a).length)
    (l : List α) : l.length ≤ (l.flatMap f).length := by
  induction l with
  | nil => simp
  | cons a l ih =>
    have ha := hf a
    rw [List.flatMap_cons, List.length_append, List.length_cons]
    omega

theorem read_block (b : String × List (String × NewValue)) (hb : b.2 ≠ []) (rest : List Token) :
    Assignment.read (p.blockTokens b ++ rest) = some (p.assignmentOf b, rest) := by
  obtain ⟨column, branches⟩ := b
  have hpos (w : String × NewValue) : 0 < (p.branchTokens column w).length := by
    simp [branchTokens]
  have hlength := length_le_flatMap hpos branches
  have hread := p.readAll_branches column branches
    ((branches.flatMap (p.branchTokens column) ++
      .word "ELSE" :: .name p.style column :: .word "END" :: .mark ')' :: rest).length + 1)
    (by
      rw [List.length_append]
      omega)
    (.name p.style column :: .word "END" :: .mark ')' :: rest) (by simp)
  have hmap : branches.map (p.whenOf column) ≠ [] := by simpa using hb
  have htokens : p.blockTokens (column, branches) ++ rest =
      .name p.style column :: .mark '=' :: .mark '(' :: .word "CASE" ::
        (branches.flatMap (p.branchTokens column) ++
          .word "ELSE" :: .name p.style column :: .word "END" :: .mark ')' :: rest) := by
    simp [blockTokens]
  rw [htokens, Assignment.read, if_pos ⟨rfl, rfl, rfl⟩, hread]
  simp [hmap, assignmentOf]

theorem readAll_blocks (blocks : List (String × List (String × NewValue))) (hne : blocks ≠ [])
    (hb : ∀ b ∈ blocks, b.2 ≠ []) (fuel : Nat) (hf : blocks.length < fuel) (w : String)
    (rest : List Token) :
    Assignment.readAll fuel (joined [.mark ','] (blocks.map p.blockTokens) ++ .word w :: rest) =
      some (blocks.map p.assignmentOf, .word w :: rest) := by
  induction blocks generalizing fuel with
  | nil => exact absurd rfl hne
  | cons b blocks ih =>
    obtain ⟨fuel, rfl⟩ := Nat.exists_eq_add_one_of_ne_zero (Nat.ne_of_gt (Nat.zero_lt_of_lt hf))
    have hfirst := p.read_block b (hb b (by simp))
    cases blocks with
    | nil =>
      have hread := hfirst (.word w :: rest)
      simp [joined, Assignment.readAll, hread]
    | cons b' blocks =>
      have hmore := ih (by simp) (fun d hd => hb d (by simp [hd])) fuel (by simpa using hf)
      have hjoined : joined [.mark ','] ((b :: b' :: blocks).map p.blockTokens) ++ .word w :: rest =
          p.blockTokens b ++ .mark ',' ::
            (joined [.mark ','] ((b' :: blocks).map p.blockTokens) ++ .word w :: rest) := by
        simp [joined]
      rw [hjoined, Assignment.readAll, hfirst]
      simp only [Option.bind_eq_bind, Option.bind_some, if_true, hmore]
      rfl

theorem readKeys_keys (keys : List String) (hne : keys ≠ []) (rest : List Token) :
    Sql.readKeys (joined [.mark ','] (keys.map fun key => [.text key]) ++ .mark ')' :: rest) =
      some (keys, rest) := by
  induction keys with
  | nil => exact absurd rfl hne
  | cons key keys ih =>
    cases keys with
    | nil => simp [joined, Sql.readKeys]
    | cons key' keys =>
      have hmore := ih (by simp)
      have hjoined : joined [.mark ','] ((key :: key' :: keys).map fun key => [.text key]) ++
          .mark ')' :: rest = .text key :: .mark ',' ::
            (joined [.mark ','] ((key' :: keys).map fun key => [.text key]) ++
              .mark ')' :: rest) := by
        simp [joined]
      rw [hjoined, Sql.readKeys, if_neg (by decide), if_pos rfl, hmore]
      rfl

theorem length_le_joined (blocks : List (String × List (String × NewValue))) :
    blocks.length ≤ (joined [.mark ','] (blocks.map p.blockTokens)).length := by
  induction blocks with
  | nil => simp
  | cons b blocks ih =>
    cases blocks with
    | nil => simp [joined, blockTokens]
    | cons b' blocks =>
      simp only [List.map_cons, joined, List.length_append, List.length_cons] at ih ⊢
      omega

/-- A database reads the statement of a plan from its tokens. -/
theorem ofTokens?_tokens (hp : p.Filled) : Update.ofTokens? p.tokens = some p.update := by
  have htokens : p.tokens = .word "UPDATE" :: .name .doubleQuote p.table :: .word "SET" ::
      (joined [.mark ','] (p.blocks.map p.blockTokens) ++ .word "WHERE" ::
        .name .doubleQuote p.lookup :: .word "IN" :: .mark '(' ::
          (joined [.mark ','] (p.keys.map fun key => [.text key]) ++ [.mark ')', .mark ';'])) := by
    simp [tokens]
  have hlength := p.length_le_joined p.blocks
  have hblocks := p.readAll_blocks p.blocks hp.blocks hp.branches
  have hkeys := readKeys_keys p.keys hp.keys [.mark ';']
  rw [htokens, Update.ofTokens?, if_pos ⟨rfl, rfl⟩, hblocks _ (by
    rw [List.length_append]
    omega)]
  simp only [Option.bind_eq_bind, Option.bind_some, and_self, if_true, hkeys]
  rfl

end Plan

/-- A database whose literals are those of the dialect, and which doubles the delimiters of its
names, reads the plan of a batch from its text; and nothing from what is cut off before a NUL
character. -/
theorem Compiler.read_statement {k : Compiler} {options : Options} {inputs : List Input}
    {c : Compiled} (lexis : Sql.Lexis) (hliterals : lexis.literals = k.target.literalStyle)
    (hdoubled : lexis.doubled k.target.nameStyle) (hquote : lexis.doubled .doubleQuote)
    (hraw : options.raw = false) (h : (k.compile options inputs).1 = .ok c) :
    ∃ rows, stampedRows k.target k.now inputs = .ok rows ∧
      compiledColumns k.target options rows = .ok c ∧
      Sql.Update.read lexis c.statement.sql =
        some (planOf k.target (lookupColumn k.target options) rows).update ∧
      ∀ cut rest, c.statement.sql.toList = cut ++ '\x00' :: rest → Sql.scan lexis cut = none := by
  obtain ⟨rows, hrows, hkeys, hcolumns, hc⟩ := Compiler.compile_eq_ok h
  obtain ⟨-, -, -, -, hstyle, hr, -⟩ := compiledColumns_eq_ok hc
  have hfilled : (planOf k.target (lookupColumn k.target options) rows).Filled :=
    filled_planOf hcolumns
  have hdenotes := denotes_planOf hkeys hc
  rw [← hliterals] at hdenotes
  rw [← hstyle] at hdoubled
  obtain ⟨hscan, hcut⟩ := scan_chars hdoubled hquote (hr.trans hraw) hfilled hdenotes
  have hsql : c.statement.sql.toList = c.statement.chars := String.toList_ofList
  refine ⟨rows, hrows, hc, ?_, ?_⟩
  · rw [Sql.Update.read, hsql, hscan]
    exact Plan.ofTokens?_tokens _ hfilled
  · rwa [hsql]

end Batch

end CaseUpdate
