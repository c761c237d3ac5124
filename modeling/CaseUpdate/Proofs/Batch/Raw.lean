import CaseUpdate.Proofs.Batch.Plan

namespace CaseUpdate.Batch

open Calendar (Instant)

def Options.rawly (options : Options) (raw : Bool) : Options := { options with raw := raw }

namespace Statement

def rawly (st : Statement) (raw : Bool) : Statement := { st with raw := raw }

section Literals

variable (st : Statement) (literal : String → List Char)

/-- An assigned value where `literal` writes the bodies of literals. -/
def assignedCharsWith (column : String) : Assigned → List Char
  | .null => "NULL".toList
  | .literal body => literal body
  | .step s => st.stepChars column s

/-- A branch up to its value. -/
def branchOpening (key : String) : List Char :=
  "WHEN ".toList ++ st.style.quoteChars st.lookup ++ " = ".toList ++ quotedBody key ++
    " THEN ".toList

def blockCharsWith (b : Block) : List Char :=
  st.style.quoteChars b.column ++ " = (CASE\n".toList ++
    separated ['\n'] (b.branches.map fun branch =>
      st.branchOpening branch.key ++ st.assignedCharsWith literal b.column branch.value) ++
    "\nELSE ".toList ++ st.style.quoteChars b.column ++ " END)".toList

/-- The text of a statement where `literal` writes the bodies of the values. All of the other texts,
names and keys among them, are those of the statement. -/
def charsWith : List Char :=
  "UPDATE ".toList ++ Sql.NameStyle.doubleQuote.quoteChars st.table ++ " SET ".toList ++
    separated "\n,".toList (st.blocks.map (st.blockCharsWith literal)) ++
    " WHERE ".toList ++ Sql.NameStyle.doubleQuote.quoteChars st.lookup ++ " IN(".toList ++
    separated [','] (st.keys.map quotedBody) ++ ");".toList

end Literals

/-- How a statement writes the bodies of its values. -/
def literalChars (raw : Bool) (body : String) : List Char :=
  if raw then body.toList else quotedBody body

theorem assignedChars_eq (st : Statement) (column : String) (a : Assigned) :
    st.assignedChars column a = st.assignedCharsWith (literalChars st.raw) column a := by
  cases a <;> rfl

theorem branchChars_eq (st : Statement) (column : String) (b : Branch) :
    st.branchChars column b =
      st.branchOpening b.key ++ st.assignedCharsWith (literalChars st.raw) column b.value := by
  unfold branchChars branchOpening
  rw [assignedChars_eq]

theorem chars_eq (st : Statement) : st.chars = st.charsWith (literalChars st.raw) := by
  have hblock : st.blockChars = st.blockCharsWith (literalChars st.raw) := by
    funext b
    unfold blockChars blockCharsWith
    rw [funext (st.branchChars_eq b.column)]
  unfold chars charsWith
  rw [hblock]

/-- No text but that of the values depends on whether they stand without quotes. -/
theorem chars_rawly (st : Statement) (raw : Bool) :
    (st.rawly raw).chars = st.charsWith (literalChars raw) := by
  rw [chars_eq]
  rfl

end Statement

def Compiled.rawly (c : Compiled) (raw : Bool) : Compiled := ⟨c.statement.rawly raw, c.keys⟩

theorem compilePlainly_rawly (target : Target) (now : Instant) (options : Options)
    (inputs : List Input) (raw : Bool) :
    compilePlainly target now (options.rawly raw) inputs =
      (compilePlainly target now options inputs).map (Compiled.rawly · raw) := by
  have hlookup : lookupColumn target (options.rawly raw) = lookupColumn target options := rfl
  have hadmission (rows : List Row) :
      admission target (options.rawly raw) rows = admission target options rows := rfl
  unfold compilePlainly
  rw [hlookup]
  cases inputs.mapM Input.toRow with
  | error e => rfl
  | ok rows =>
    rw [ok_bind, ok_bind, hadmission]
    cases admission target options rows with
    | error e => rfl
    | ok known =>
      rw [ok_bind, ok_bind]
      cases entriesOf target now known (lookupColumn target options) 0 rows with
      | error e => rfl
      | ok entries =>
        rw [ok_bind, ok_bind]
        split_ifs <;> rfl

/-- Whether values stand without quotes decides neither whether a batch compiles nor anything of the
result but that. -/
theorem Compiler.compile_rawly (k : Compiler) (options : Options) (inputs : List Input)
    (raw : Bool) :
    (k.compile (options.rawly raw) inputs).1 =
      (k.compile options inputs).1.map (Compiled.rawly · raw) := by
  rw [k.compile_eq, k.compile_eq, compilePlainly_rawly]

/-- What stands for a change among quoted values, and among values without quotes. -/
inductive Written (target : Target) (st : Statement) (column : String) :
    Change → List Char → List Char → Prop
  | null {c : Change} (h : scalar? c = some .null) :
    Written target st column c "NULL".toList "NULL".toList
  | scalar {c : Change} {s : Scalar} {body : String} (h : scalar? c = some s) (hnull : s ≠ .null)
    (hbody : target.literalStyle.escapeScalar s = some body) :
    Written target st column c (quotedBody body) body.toList
  | object {members : List (String × Json)} {body : String}
    (hbody : target.literalStyle.escapeText (Json.compact (.object members)) = body) :
    Written target st column (.document (.object members)) (quotedBody body) body.toList
  | step {c : Change} {s : Step} (h : step? c = some s) :
    Written target st column c (st.stepChars column s) (st.stepChars column s)

theorem written_assigned {target : Target} (st : Statement) {column : String} {c : Change}
    {a : Assigned} (h : assigned target column c = .ok a) :
    Written target st column c (st.assignedCharsWith quotedBody column a)
      (st.assignedCharsWith String.toList column a) := by
  rcases assigned_cases h with ⟨s, hs, rfl⟩ | ⟨s, hs, rfl⟩ | ⟨members, rfl, rfl⟩
  · rw [assignedScalar]
    have hnone := target.literalStyle.escapeScalar_eq_none_iff s
    cases hbody : target.literalStyle.escapeScalar s with
    | none => exact .null (hnone.mp hbody ▸ hs)
    | some body => exact .scalar hs (by simpa [hbody] using hnone) hbody
  · exact .step hs
  · exact .object rfl

/-- Raw mode drops quotes and nothing else. A batch fails with the same error in both modes, or it
compiles in both, to the same keys and blocks. The texts are then the same but for the values that
are neither NULL nor steps, which stand in raw mode without the quotes that are around them
otherwise: what is before the value of a branch is the same, and so are all keys and names. -/
theorem Compiler.raw_drops_quotes (k : Compiler) (options : Options) (inputs : List Input) :
    (∃ e, (k.compile (options.rawly false) inputs).1 = .error e ∧
      (k.compile (options.rawly true) inputs).1 = .error e) ∨
    ∃ quoted bare rows, (k.compile (options.rawly false) inputs).1 = .ok quoted ∧
      (k.compile (options.rawly true) inputs).1 = .ok bare ∧
      bare.keys = quoted.keys ∧ bare.statement = quoted.statement.rawly true ∧
      quoted.statement.chars = quoted.statement.charsWith quotedBody ∧
      bare.statement.chars = quoted.statement.charsWith String.toList ∧
      stampedRows k.target k.now inputs = .ok rows ∧
      ∀ b ∈ quoted.statement.blocks, List.Forall₂
        (fun g branch => ∃ was is,
          quoted.statement.branchChars b.column branch =
            quoted.statement.branchOpening (keyLiteral k.target g.1) ++ was ∧
          bare.statement.branchChars b.column branch =
            quoted.statement.branchOpening (keyLiteral k.target g.1) ++ is ∧
          Written k.target quoted.statement b.column g.2 was is)
        (carried (lookupColumn k.target options) b.column rows) b.branches := by
  rw [k.compile_rawly, k.compile_rawly]
  cases hc : (k.compile options inputs).1 with
  | error e => exact .inl ⟨e, rfl, rfl⟩
  | ok c =>
    obtain ⟨rows, hrows, -, -, hcolumns⟩ := Compiler.compile_eq_ok hc
    obtain ⟨-, -, -, -, -, -, hblocks⟩ := compiledColumns_eq_ok hcolumns
    refine .inr ⟨c.rawly false, c.rawly true, rows, rfl, rfl, rfl, rfl,
      c.statement.chars_rawly false, c.statement.chars_rawly true, hrows, ?_⟩
    intro b hb
    refine (blockOf_eq_ok ((forall₂_blockOf hblocks).2 b hb)).2.imp ?_
    intro g branch hbranch
    obtain ⟨value, hvalue, rfl⟩ := map_eq_ok.mp hbranch
    exact ⟨_, _, Statement.branchChars_eq _ _ _, Statement.branchChars_eq _ _ _,
      written_assigned (c.statement.rawly false) hvalue⟩

/-- A text with a quote in it, NULL, a step and an object. -/
theorem Compiler.raw_drops_quotes_of_each :
    let k := Compiler.new (.ofTable "t" "id") ⟨⟨2024, 1, 1⟩, ⟨0, 0, 0, 0⟩⟩
    let inputs : List Input :=
      [.row (.ofList [("id", .scalar (.text "o'k")), ("a", .scalar (.text "it's")),
        ("n", .step ⟨.subtract, .int (-2)⟩), ("o", .document (.object [("k", .bool true)]))]),
        .row (.ofList [("id", .scalar (.int 2)), ("a", .scalar .null)])]
    ∃ quoted bare, (k.compile .default inputs).1 = .ok quoted ∧
      (k.compile ⟨none, true, false⟩ inputs).1 = .ok bare ∧
      quoted.statement.sql = "UPDATE \"t\" SET " ++
        "`a` = (CASE\nWHEN `id` = 'o\\'k' THEN 'it\\'s'\nWHEN `id` = '2' THEN NULL\n" ++
        "ELSE `a` END)\n," ++
        "`n` = (CASE\nWHEN `id` = 'o\\'k' THEN `n`-(-2)\nELSE `n` END)\n," ++
        "`o` = (CASE\nWHEN `id` = 'o\\'k' THEN '\x7b\"k\":true\x7d'\nELSE `o` END) " ++
        "WHERE \"id\" IN('o\\'k','2');" ∧
      bare.statement.sql = "UPDATE \"t\" SET " ++
        "`a` = (CASE\nWHEN `id` = 'o\\'k' THEN it\\'s\nWHEN `id` = '2' THEN NULL\n" ++
        "ELSE `a` END)\n," ++
        "`n` = (CASE\nWHEN `id` = 'o\\'k' THEN `n`-(-2)\nELSE `n` END)\n," ++
        "`o` = (CASE\nWHEN `id` = 'o\\'k' THEN \x7b\"k\":true\x7d\nELSE `o` END) " ++
        "WHERE \"id\" IN('o\\'k','2');" := by
  intro k inputs
  obtain ⟨c, hc, hstatement⟩ := Option.map_eq_some_iff.mp (show
    ((k.compile .default inputs).1.toOption.map Compiled.statement) =
      some ⟨"t", "id", .backtick, false, [⟨"a", [⟨"o\\'k", .literal "it\\'s"⟩, ⟨"2", .null⟩]⟩,
        ⟨"n", [⟨"o\\'k", .step ⟨.subtract, .int (-2)⟩⟩]⟩,
        ⟨"o", [⟨"o\\'k", .literal "\x7b\"k\":true\x7d"⟩]⟩], ["o\\'k", "2"]⟩ by decide +kernel)
  rcases k.raw_drops_quotes .default inputs with ⟨e, he, -⟩ |
    ⟨quoted, bare, rows, hquoted, hbare, -, -, htext, hbaretext, -⟩
  · cases he.symm.trans (toOption_eq_some.mp hc)
  · cases hquoted.symm.trans (toOption_eq_some.mp hc)
    rw [hstatement] at htext hbaretext
    refine ⟨c, bare, hquoted, hbare, ?_, ?_⟩
    · rw [Statement.sql, hstatement, htext]
      decide +kernel
    · rw [Statement.sql, hbaretext]
      decide +kernel

end CaseUpdate.Batch
