import CaseUpdate.Proofs.Batch.Plan

namespace CaseUpdate.Batch

open Sql.NameStyle (toList_quote)

def inQuotes (body : String) : String := "'" ++ body ++ "'"

/-- A literal. Its quotes are left out where values stand without them. -/
def literalText (raw : Bool) (body : String) : String := if raw then body else inQuotes body

def scalarText (target : Target) (raw : Bool) (s : Scalar) : String :=
  match target.literalStyle.escapeScalar s with
  | some body => literalText raw body
  | none => "NULL"

/-- A column with its step, whose operand has brackets around it where it has a minus. -/
def stepText (target : Target) (column : String) (s : Step) : String :=
  let operand := String.ofList s.operand.chars
  target.nameStyle.quote column ++ String.singleton s.operator.symbol ++
    if s.operand.isNegative then "(" ++ operand ++ ")" else operand

/-- What is written for a change of a column. A list that is no step is never written. -/
def changeText (target : Target) (raw : Bool) (column : String) : Change → String
  | .scalar s => scalarText target raw s
  | .step s => stepText target column s
  | .document (.array items) =>
    match Step.ofItems items with
    | .ok s => stepText target column s
    | .error _ => ""
  | .document (.object members) =>
    literalText raw (target.literalStyle.escapeText (Json.compact (.object members)))
  | .document v => scalarText target raw ((Scalar.ofJson? v).getD .null)

section Texts

variable (target : Target) (options : Options)

/-- The branch for what a row gives for a column, after the key of the row. -/
def branchText (column : String) (g : Scalar × Change) : String :=
  "WHEN " ++ target.nameStyle.quote (lookupColumn target options) ++ " = " ++
    inQuotes (keyLiteral target g.1) ++ " THEN " ++ changeText target options.raw column g.2

/-- The cases of a column, with a branch for each row that carries it. -/
def casesText (rows : List Row) (column : String) : String :=
  target.nameStyle.quote column ++ " = (CASE\n" ++
    "\n".intercalate ((carried (lookupColumn target options) column rows).map
      (branchText target options column)) ++
    "\nELSE " ++ target.nameStyle.quote column ++ " END)"

/-- The text for rows, written column by column, with the keys of the rows at its end. -/
def updateText (rows : List Row) : String :=
  "UPDATE " ++ Sql.NameStyle.doubleQuote.quote target.qualifiedTable ++ " SET " ++
    "\n,".intercalate ((touchedColumns (lookupColumn target options) rows).map
      (casesText target options rows)) ++
    " WHERE " ++ Sql.NameStyle.doubleQuote.quote (lookupColumn target options) ++ " IN(" ++
    ",".intercalate (rows.map fun r =>
      inQuotes (keyLiteral target (keyIn (lookupColumn target options) r))) ++ ");"

end Texts

theorem changeText_of_scalar? {target : Target} {raw : Bool} {column : String} {c : Change}
    {s : Scalar} (h : scalar? c = some s) :
    changeText target raw column c = scalarText target raw s := by
  cases c with
  | scalar s' =>
    cases h
    rfl
  | step s' => cases h
  | document v =>
    rw [scalar?] at h
    cases v with
    | array items => cases h
    | object members => cases h
    | _ => simp [changeText, h]

theorem changeText_of_step? {target : Target} {raw : Bool} {column : String} {c : Change}
    {s : Step} (h : step? c = some s) :
    changeText target raw column c = stepText target column s := by
  unfold step? at h
  split at h
  · cases h
    rfl
  · simp only [changeText, toOption_eq_some.mp h]
  · cases h

theorem separated_eq_intercalate (separator : List Char) (l : List (List Char)) :
    separated separator l = separator.intercalate l := by
  induction l with
  | nil => rfl
  | cons s rest ih =>
    cases rest with
    | nil => simp [separated]
    | cons s' rest =>
      rw [List.intercalate_cons_cons, ← ih]
      rfl

@[simp] theorem toList_inQuotes (body : String) : (inQuotes body).toList = quotedBody body := by
  rw [inQuotes, String.toList_append, String.toList_append]
  rfl

theorem toList_literalText (raw : Bool) (body : String) :
    (literalText raw body).toList = if raw then body.toList else quotedBody body := by
  unfold literalText
  split_ifs
  · rfl
  · exact toList_inQuotes body

section Characters

variable {target : Target} {options : Options} {st : Statement} {column : String}

theorem toList_stepText (hstyle : st.style = target.nameStyle) (s : Step) :
    (stepText target column s).toList = st.stepChars column s := by
  unfold stepText Statement.stepChars
  rw [hstyle]
  split_ifs <;> simp

/-- What is assigned is written as the change that it comes from. -/
theorem assignedChars_of_assigned (hstyle : st.style = target.nameStyle) {c : Change} {a : Assigned}
    (h : assigned target column c = .ok a) :
    st.assignedChars column a = (changeText target st.raw column c).toList := by
  rcases assigned_cases h with ⟨s, hs, rfl⟩ | ⟨s, hs, rfl⟩ | ⟨members, rfl, rfl⟩
  · rw [changeText_of_scalar? hs, scalarText, assignedScalar]
    cases target.literalStyle.escapeScalar s with
    | none => rfl
    | some body => exact (toList_literalText _ body).symm
  · rw [changeText_of_step? hs, toList_stepText hstyle]
    rfl
  · exact (toList_literalText _ _).symm

variable (hstyle : st.style = target.nameStyle) (hlookup : st.lookup = lookupColumn target options)
  (hraw : st.raw = options.raw)

include hstyle hlookup hraw

theorem branchChars_of_branchOf {g : Scalar × Change} {b : Branch}
    (h : branchOf target column g = .ok b) :
    st.branchChars column b = (branchText target options column g).toList := by
  obtain ⟨a, ha, rfl⟩ := map_eq_ok.mp h
  have hvalue := assignedChars_of_assigned hstyle ha
  rw [hraw] at hvalue
  unfold Statement.branchChars branchText
  simp only [hvalue, hstyle, hlookup, String.toList_append, toList_quote, toList_inQuotes]

theorem blockChars_of_blockOf {rows : List Row} {b : Block}
    (h : blockOf target (lookupColumn target options) rows column = .ok b) :
    st.blockChars b = (casesText target options rows column).toList := by
  obtain ⟨rfl, hbranches⟩ := blockOf_eq_ok h
  have hchars : b.branches.map (st.branchChars b.column) =
      (carried (lookupColumn target options) b.column rows).map fun g =>
        (branchText target options b.column g).toList :=
    map_eq_map_of_forall₂ hbranches fun _ _ => branchChars_of_branchOf hstyle hlookup hraw
  unfold Statement.blockChars casesText
  simp only [hchars, hstyle, separated_eq_intercalate, String.toList_append, toList_quote,
    String.toList_intercalate, List.map_map, Function.comp_def]
  rfl

end Characters

/-- The statement of rows is written column by column. -/
theorem sql_of_compiledColumns {target : Target} {options : Options} {rows : List Row}
    {c : Compiled} (h : compiledColumns target options rows = .ok c) :
    c.statement.sql = updateText target options rows := by
  obtain ⟨hk, hliterals, htable, hlookup, hstyle, hraw, hblocks⟩ := compiledColumns_eq_ok h
  have hchars : c.statement.blocks.map c.statement.blockChars =
      (touchedColumns (lookupColumn target options) rows).map fun column =>
        (casesText target options rows column).toList :=
    map_eq_map_of_forall₂ hblocks fun _ _ => blockChars_of_blockOf hstyle hlookup hraw
  apply String.toList_inj.mp
  unfold updateText
  rw [Statement.toList_sql]
  unfold Statement.chars
  simp only [hchars, hliterals, hk, htable, hlookup, separated_eq_intercalate,
    String.toList_append, toList_quote, toList_inQuotes, String.toList_intercalate, List.map_map,
    Function.comp_def]
  rfl

/-- Grouping by columns is exact. The blocks are those of the distinct columns besides the lookup
column in the order in which they first come, and in the block of a column stands one branch for each
row that carries it, in the order of the rows, with the literal of the key that also stands among the
keys. Nothing but the rows with their stamps decides what the statement is, and its text is the one
that is written from them column by column. -/
theorem Compiler.compile_groups_by_column {k : Compiler} {options : Options} {inputs : List Input}
    {c : Compiled} (h : (k.compile options inputs).1 = .ok c) :
    ∃ rows, stampedRows k.target k.now inputs = .ok rows ∧ rows.length = inputs.length ∧
      (∀ r ∈ rows, HasKey (lookupColumn k.target options) r) ∧
      c.keys = rows.map (keyIn (lookupColumn k.target options)) ∧
      c.statement.keys = c.keys.map (keyLiteral k.target) ∧
      (c.statement.blocks.map Block.column).Nodup ∧
      c.statement.blocks.map Block.column = touchedColumns (lookupColumn k.target options) rows ∧
      (∀ b ∈ c.statement.blocks,
        List.Forall₂ (fun g branch => ∃ value, assigned k.target b.column g.2 = .ok value ∧
            branch = ⟨keyLiteral k.target g.1, value⟩ ∧
            c.statement.branchChars b.column branch =
              (branchText k.target options b.column g).toList)
          (carried (lookupColumn k.target options) b.column rows) b.branches) ∧
      compiledColumns k.target options rows = .ok c ∧
      c.statement.sql = updateText k.target options rows := by
  obtain ⟨rows, hrows, hkeys, -, hc⟩ := Compiler.compile_eq_ok h
  obtain ⟨hk, hliterals, -, hlookup, hstyle, hraw, hblocks⟩ := compiledColumns_eq_ok hc
  obtain ⟨hcolumns, hall⟩ := forall₂_blockOf hblocks
  refine ⟨rows, hrows, length_stampedRows hrows, hkeys, hk, hliterals, ?_, hcolumns, ?_, hc,
    sql_of_compiledColumns hc⟩
  · rw [hcolumns]
    exact nodup_eraseDups _
  · intro b hb
    refine (blockOf_eq_ok (hall b hb)).2.imp ?_
    intro g branch hbranch
    obtain ⟨value, hvalue, hv⟩ := map_eq_ok.mp hbranch
    exact ⟨value, hvalue, hv.symm, branchChars_of_branchOf hstyle hlookup hraw hbranch⟩

/-- Two rows with different columns in different orders. -/
theorem Compiler.compile_groups_by_column_of_two :
    let k := Compiler.new (.ofTable "t" "id") ⟨⟨2024, 1, 1⟩, ⟨0, 0, 0, 0⟩⟩
    let inputs : List Input :=
      [.row (.ofList [("id", .scalar (.int 1)), ("a", .scalar (.text "it's"))]),
        .row (.ofList [("b", .step ⟨.add, .int 2⟩), ("a", .scalar .null),
          ("id", .scalar (.int 2))])]
    ∃ rows c, stampedRows k.target k.now inputs = .ok rows ∧
      (k.compile .default inputs).1 = .ok c ∧ touchedColumns "id" rows = ["a", "b"] ∧
      rows.map (keyIn "id") = [.int 1, .int 2] ∧
      c.statement.sql = "UPDATE \"t\" SET " ++
        "`a` = (CASE\nWHEN `id` = '1' THEN 'it\\'s'\nWHEN `id` = '2' THEN NULL\n" ++
        "ELSE `a` END)\n," ++
        "`b` = (CASE\nWHEN `id` = '2' THEN `b`+2\nELSE `b` END) " ++
        "WHERE \"id\" IN('1','2');" := by
  intro k inputs
  have h : (k.compile .default inputs).1 =
      .ok ⟨⟨"t", "id", .backtick, false, [⟨"a", [⟨"1", .literal "it\\'s"⟩, ⟨"2", .null⟩]⟩,
        ⟨"b", [⟨"2", .step ⟨.add, .int 2⟩⟩]⟩], ["1", "2"]⟩, [.int 1, .int 2]⟩ := rfl
  obtain ⟨rows, hrows, -, -, hkeys, -, -, hcolumns, -, -, hsql⟩ :=
    Compiler.compile_groups_by_column h
  cases hrows
  exact ⟨_, _, rfl, h, hcolumns.symm, hkeys.symm, hsql.trans (by decide +kernel)⟩

end CaseUpdate.Batch
