import CaseUpdate.Proofs.Batch.Reading
import CaseUpdate.Proofs.Database.Rows

namespace CaseUpdate

open Database (Arithmetic Cell Table cell?)
open Sql (Name Expr)

def Operand.isFinite : Operand → Bool
  | .int _ => true
  | .float x => x.isFinite

/-- The value of an operand that is a number. -/
def Operand.value (arithmetic : Arithmetic) : Operand → Database.Value
  | .int n => arithmetic.numeral (n < 0) (String.ofList (Nat.toDigits 10 n.natAbs))
  | .float (.finite negative x) => arithmetic.numeral negative (String.ofList x.plain)
  | .float _ => .null

/-- A number is read as a numeral, which has no names. -/
theorem Operand.expr_of_isFinite {x : Operand} (h : x.isFinite) :
    ∃ negative s, x.expr = .numeral negative s ∧
      ∀ arithmetic : Arithmetic, x.value arithmetic = arithmetic.numeral negative s := by
  cases x with
  | int n => exact ⟨_, _, rfl, fun _ => rfl⟩
  | float x =>
    cases x with
    | nan negative => cases h
    | infinite negative => cases h
    | finite negative x => exact ⟨_, _, rfl, fun _ => rfl⟩

namespace Batch

/-- What a new value stores in a cell. -/
def NewValue.cell (arithmetic : Arithmetic) (old : Cell) : NewValue → Cell
  | .null => none
  | .text s => some s
  | .step s => (arithmetic.apply s.operator (.ofCell old) (s.operand.value arithmetic)).toCell

/-- Whether a new value is no step with an operand that is no number. -/
def NewValue.isFinite : NewValue → Bool
  | .step s => s.operand.isFinite
  | _ => true

/-- The key of the rows that a table row has. -/
def touchedKey (lookup : String) (rows : List Row) (columns : List String) (row : List Cell) :
    Option String :=
  (cell? columns row lookup).join.filter fun key => key ∈ rows.map fun r => keyText (keyIn lookup r)

/-- What the first row that has a key and carries a column gives for it. -/
def firstChange (lookup : String) (rows : List Row) (key column : String) : Option Change :=
  rows.findSome? fun r => if keyText (keyIn lookup r) = key then r.get? column else none

/-- A cell of a table row that has a key. -/
def cellAfter (arithmetic : Arithmetic) (lookup : String) (rows : List Row) (key column : String)
    (old : Cell) : Cell :=
  if column = lookup then old
  else match firstChange lookup rows key column with
    | some c => (newValue c).cell arithmetic old
    | none => old

def rowAfter (arithmetic : Arithmetic) (lookup : String) (rows : List Row) (columns : List String)
    (row : List Cell) : List Cell :=
  match touchedKey lookup rows columns row with
  | some key => columns.map fun column =>
    cellAfter arithmetic lookup rows key column (cell? columns row column).join
  | none => row

def tableAfter (arithmetic : Arithmetic) (lookup : String) (rows : List Row) (t : Table) : Table :=
  { t with rows := t.rows.map (rowAfter arithmetic lookup rows t.columns) }

/-- How many rows of a table a batch touches. -/
def touchedCount (lookup : String) (rows : List Row) (t : Table) : Nat :=
  t.rows.countP fun row => (touchedKey lookup rows t.columns row).isSome

section Row

variable {arithmetic : Arithmetic} {columns : List String} {row : List Cell}

theorem NewValue.value_expr (style : Sql.NameStyle) {column : String} {old : Cell}
    (hold : cell? columns row column = some old) {v : NewValue} (hv : v.isFinite) :
    (Database.exprValue arithmetic columns row (v.expr style column)).toCell =
      v.cell arithmetic old := by
  cases v with
  | null => rfl
  | text s => rfl
  | step s =>
    obtain ⟨negative, digits, hexpr, hvalue⟩ := Operand.expr_of_isFinite hv
    have hcolumn : Database.nameValue columns row ⟨style, column⟩ = old :=
      Database.nameValue_of_cell? hold
    simp only [NewValue.expr, NewValue.cell, Database.exprValue, hexpr, hvalue, hcolumn]

/-- Whether all steps of a plan have numbers as their operands. -/
def Plan.IsFinite (p : Plan) : Prop := ∀ b ∈ p.blocks, ∀ w ∈ b.2, w.2.isFinite

instance (p : Plan) : Decidable p.IsFinite :=
  inferInstanceAs (Decidable (∀ b ∈ p.blocks, ∀ w ∈ b.2, w.2.isFinite))

variable {target : Target} {lookup : String} {rows : List Row}

theorem plannedBranches_eq_nil {column : String} (hc : column ≠ lookup)
    (h : column ∉ touchedColumns lookup rows) : plannedBranches lookup column rows = [] := by
  rw [plannedBranches, List.map_eq_nil_iff, carried, List.filterMap_eq_nil_iff]
  intro r hr
  rw [get?_of_not_mem hc h hr, Option.map_none]

/-- The first branch with a key is that of the first row with the key that carries the column. -/
theorem find?_plannedBranches (lookup : String) (rows : List Row) (key column : String) :
    ((plannedBranches lookup column rows).find? fun b => b.1 = key).map Prod.snd =
      (firstChange lookup rows key column).map newValue := by
  unfold firstChange plannedBranches carried
  induction rows with
  | nil => rfl
  | cons r rows ih =>
    rw [List.filterMap_cons, List.findSome?_cons]
    cases hg : r.get? column with
    | none =>
      simp only [Option.map_none, ite_self]
      exact ih
    | some c =>
      simp only [Option.map_some, List.map_cons]
      by_cases hk : keyText (keyIn lookup r) = key
      · rw [List.find?_cons_of_pos (by simpa using hk), if_pos hk]
        rfl
      · rw [List.find?_cons_of_neg (by simpa using hk), if_neg hk]
        exact ih

theorem find?_eq_self (l : List String) (c : String) :
    (l.find? fun d => d = c) = if c ∈ l then some c else none := by
  induction l with
  | nil => rfl
  | cons d l ih =>
    by_cases h : d = c
    · rw [List.find?_cons_of_pos (by simpa using h), if_pos (by simp [h]), h]
    · have hmem : c ∈ d :: l ↔ c ∈ l := by simp [Ne.symm h]
      rw [List.find?_cons_of_neg (by simpa using h), ih]
      simp only [hmem]

/-- The assignment to a column, which is there iff the column is touched. -/
theorem find?_assignments (target : Target) (lookup : String) (rows : List Row) (c : String) :
    ((planOf target lookup rows).update.assignments.find? fun a => a.column.text = c) =
      if c ∈ touchedColumns lookup rows then
        some ((planOf target lookup rows).assignmentOf (c, plannedBranches lookup c rows))
      else none := by
  have hself := find?_eq_self (touchedColumns lookup rows) c
  have hmap : (planOf target lookup rows).update.assignments =
      (touchedColumns lookup rows).map fun column =>
        (planOf target lookup rows).assignmentOf (column, plannedBranches lookup column rows) := by
    rw [Plan.update, planOf, List.map_map]
    rfl
  rw [hmap, List.find?_map]
  change Option.map _ ((touchedColumns lookup rows).find? fun d => d = c) = _
  rw [hself]
  split_ifs <;> rfl

theorem assignedColumns_planOf (target : Target) (lookup : String) (rows : List Row) :
    (planOf target lookup rows).update.assignments.map (fun a => a.column.text) =
      touchedColumns lookup rows := by
  simp [Plan.update, planOf, Plan.assignmentOf, Function.comp_def]

theorem nodup_assignedColumns (target : Target) (lookup : String) (rows : List Row) :
    ((planOf target lookup rows).update.assignments.map fun a => a.column.text).Nodup := by
  rw [assignedColumns_planOf]
  exact nodup_eraseDups _

/-- A column that no row carries keeps its value, and so does the lookup column. -/
theorem cellAfter_of_not_mem {column key : String} (h : column ∉ touchedColumns lookup rows)
    {old : Cell} : cellAfter arithmetic lookup rows key column old = old := by
  unfold cellAfter
  by_cases hc : column = lookup
  · rw [if_pos hc]
  · have hfirst := find?_plannedBranches lookup rows key column
    rw [plannedBranches_eq_nil hc h] at hfirst
    rw [if_neg hc, Option.map_eq_none_iff.mp hfirst.symm]

variable (target) in
/-- The cases of a touched column choose the value that the rows of the batch ask for. -/
theorem caseValue_assignment {column key : String} (h : column ∈ touchedColumns lookup rows)
    (hfinite : (planOf target lookup rows).IsFinite)
    (hkey : cell? columns row lookup = some (some key)) {old : Cell}
    (hold : cell? columns row column = some old) :
    Database.caseValue arithmetic columns row ⟨target.nameStyle, column⟩
        ((plannedBranches lookup column rows).map ((planOf target lookup rows).whenOf column)) =
      cellAfter arithmetic lookup rows key column old := by
  have hne : column ≠ lookup := (mem_touchedColumns.mp h).1
  have hbranches : ∀ w ∈ (plannedBranches lookup column rows).map
      ((planOf target lookup rows).whenOf column),
      Database.nameValue columns row w.lookup = some key := by
    intro w hw
    obtain ⟨b, -, rfl⟩ := List.mem_map.mp hw
    exact Database.nameValue_of_cell? hkey
  have hvalues : ∀ b ∈ plannedBranches lookup column rows, b.2.isFinite :=
    hfinite (column, _) (List.mem_map.mpr ⟨column, h, rfl⟩)
  have hkeys : (fun w : Sql.When => decide (w.key = key)) ∘
      (planOf target lookup rows).whenOf column = fun b => decide (b.1 = key) := rfl
  have hfirst := find?_plannedBranches lookup rows key column
  rw [Database.caseValue_eq arithmetic hbranches, List.find?_map, hkeys, cellAfter, if_neg hne]
  cases hfind : (plannedBranches lookup column rows).find? fun b => b.1 = key with
  | none =>
    rw [hfind] at hfirst
    rw [Option.map_eq_none_iff.mp hfirst.symm]
    exact Database.nameValue_of_cell? hold
  | some b =>
    rw [hfind] at hfirst
    obtain ⟨c, hc, hvalue⟩ := Option.map_eq_some_iff.mp hfirst.symm
    have hb := hvalues b (List.mem_of_find?_eq_some hfind)
    rw [hc]
    dsimp only
    rw [hvalue]
    exact NewValue.value_expr _ hold hb

variable (target) in
/-- The new row of an update is the one that the rows of the batch ask for. -/
theorem assignAll_update (hn : columns.Nodup) (hlen : row.length = columns.length)
    (hfinite : (planOf target lookup rows).IsFinite) {key : String}
    (hkey : cell? columns row lookup = some (some key)) :
    Database.assignAll arithmetic columns row (planOf target lookup rows).update.assignments =
      columns.map fun column =>
        cellAfter arithmetic lookup rows key column (cell? columns row column).join := by
  have hcolumns := nodup_assignedColumns target lookup rows
  apply Database.row_ext hn
  · rw [Database.length_assignAll, hlen]
  · rw [List.length_map]
  · intro c hc
    obtain ⟨old, hold⟩ := Database.exists_cell? hlen hc
    rw [Database.cell?_map _ hc, Database.assignAll,
      Database.cell?_foldl_setCell _ _ hcolumns hlen hc, find?_assignments, hold]
    by_cases hmem : c ∈ touchedColumns lookup rows
    · rw [if_pos hmem]
      exact congrArg some (caseValue_assignment target hmem hfinite hkey hold)
    · rw [if_neg hmem]
      exact congrArg some (cellAfter_of_not_mem hmem).symm

/-- A row is touched iff its lookup cell is the key of one of the rows of the batch. -/
theorem touches_update (target : Target) (hlen : row.length = columns.length)
    (hlookup : lookup ∈ columns) :
    Database.touches (planOf target lookup rows).update columns row =
      (touchedKey lookup rows columns row).isSome := by
  obtain ⟨v, hv⟩ := Database.exists_cell? hlen hlookup
  have hvalue : Database.nameValue columns row (planOf target lookup rows).update.lookup = v :=
    Database.nameValue_of_cell? hv
  have hkeys : (planOf target lookup rows).update.keys =
      rows.map fun r => keyText (keyIn lookup r) := rfl
  rw [Database.touches, touchedKey, hvalue, hv, hkeys]
  cases v with
  | none => rfl
  | some key =>
    generalize (rows.map fun r => keyText (keyIn lookup r)) = keys
    by_cases hk : key ∈ keys <;> simp [hk]

theorem update_row (target : Target) (hn : columns.Nodup) (hlen : row.length = columns.length)
    (hlookup : lookup ∈ columns) (hfinite : (planOf target lookup rows).IsFinite) :
    (if Database.touches (planOf target lookup rows).update columns row then
      Database.assignAll arithmetic columns row (planOf target lookup rows).update.assignments
    else row) = rowAfter arithmetic lookup rows columns row := by
  rw [touches_update target hlen hlookup, rowAfter]
  cases hkey : touchedKey lookup rows columns row with
  | none => rfl
  | some key =>
    have hcell : cell? columns row lookup = some (some key) := by
      obtain ⟨hjoin, -⟩ := Option.filter_eq_some_iff.mp hkey
      exact Option.join_eq_some_iff.mp hjoin
    exact assignAll_update target hn hlen hfinite hcell

end Row

end Batch

end CaseUpdate
