import CaseUpdate.Proofs.Database.Execution

namespace CaseUpdate

namespace Sql

/-- The names that a value reads. -/
def Expr.names : Expr → List Name
  | .column n => [n]
  | .negative e => e.names
  | .binary _ e e' => e.names ++ e'.names
  | .null | .text _ | .numeral _ _ => []

def When.names (w : When) : List Name := w.lookup :: w.value.names

def Assignment.names (a : Assignment) : List Name := a.otherwise :: a.branches.flatMap When.names

/-- Assignments that do not get in each other's way: no column is assigned twice, the lookup column
never, and each value is made of its own column and the lookup column. -/
structure Update.Separate (u : Update) : Prop where
  nodup : (u.assignments.map fun a => a.column.text).Nodup
  ne_lookup : ∀ a ∈ u.assignments, a.column.text ≠ u.lookup.text
  names : ∀ a ∈ u.assignments, ∀ n ∈ a.names, n.text = a.column.text ∨ n.text = u.lookup.text

end Sql

namespace Database

open Sql (Name Expr When Assignment Update)

section Rows

variable (arithmetic : Arithmetic) (columns : List String)

/-- The row after assignments one after another, each of which finds what those before it left. -/
def assignInTurn (row : List Cell) (as : List Assignment) : List Cell :=
  as.foldl (fun new a =>
    setCell columns new a.column.text (caseValue arithmetic columns new a.otherwise a.branches)) row

variable {arithmetic columns} {row row' : List Cell}

theorem nameValue_congr {n : Name} (h : cell? columns row n.text = cell? columns row' n.text) :
    nameValue columns row n = nameValue columns row' n := by rw [nameValue, nameValue, h]

/-- A value depends on the cells of its names alone. -/
theorem exprValue_congr {e : Expr}
    (h : ∀ n ∈ e.names, cell? columns row n.text = cell? columns row' n.text) :
    exprValue arithmetic columns row e = exprValue arithmetic columns row' e := by
  induction e with
  | null => rfl
  | text s => rfl
  | numeral negative s => rfl
  | column n => rw [exprValue, exprValue, nameValue_congr (h n (by simp [Expr.names]))]
  | negative e ih => rw [exprValue, exprValue, ih h]
  | binary op e e' ih ih' =>
    have hleft := ih fun n hn => h n (List.mem_append_left _ hn)
    have hright := ih' fun n hn => h n (List.mem_append_right _ hn)
    rw [exprValue, exprValue, hleft, hright]

theorem caseValue_congr {otherwise : Name} {branches : List When}
    (h : ∀ n ∈ otherwise :: branches.flatMap When.names,
      cell? columns row n.text = cell? columns row' n.text) :
    caseValue arithmetic columns row otherwise branches =
      caseValue arithmetic columns row' otherwise branches := by
  induction branches with
  | nil => exact nameValue_congr (h otherwise (by simp))
  | cons w branches ih =>
    have hlookup := nameValue_congr (h w.lookup (by simp [When.names]))
    have hvalue : exprValue arithmetic columns row w.value =
        exprValue arithmetic columns row' w.value := by
      apply exprValue_congr
      intro n hn
      exact h n (by simp [When.names, hn])
    have hrest := ih fun n hn => h n (by
      rcases List.mem_cons.mp hn with rfl | hn
      · exact List.mem_cons_self
      · exact List.mem_cons_of_mem _ (List.mem_append_right _ hn))
    rw [caseValue, caseValue, hlookup, hvalue, hrest]

theorem setCell_comm {c d : String} (hcd : c ≠ d) (v w : Cell) :
    setCell columns (setCell columns row c v) d w =
      setCell columns (setCell columns row d w) c v := by
  induction columns generalizing row with
  | nil => rfl
  | cons e columns ih =>
    cases row with
    | nil => rfl
    | cons x row =>
      rw [setCell, setCell, setCell, setCell, ih]
      by_cases hc : e = c
      · have hd : ¬ e = d := fun he => hcd (hc.symm.trans he)
        rw [if_pos hc, if_neg hd, if_neg hd, if_pos hc]
      · rw [if_neg hc, if_neg hc]

/-- The order of assignments from one row does not matter if they are to different columns. -/
theorem assignAll_perm {as as' : List Assignment} (h : as.Perm as')
    (hn : (as.map fun a => a.column.text).Nodup) :
    assignAll arithmetic columns row as = assignAll arithmetic columns row as' := by
  unfold assignAll
  apply h.foldl_eq'
  intro a ha b hb new
  by_cases hab : a.column.text = b.column.text
  · rw [List.inj_on_of_nodup_map hn ha hb hab]
  · exact setCell_comm hab _ _

/-- Assignments in turn give the values from the old row: a column that was assigned before is read
by no later assignment. The induction is on the assignments that are left, for a row that has the
old cells wherever these look. -/
theorem assignInTurn_eq {lookup : String} {as : List Assignment}
    (hn : (as.map fun a => a.column.text).Nodup) (hlookup : ∀ a ∈ as, a.column.text ≠ lookup)
    (hnames : ∀ a ∈ as, ∀ n ∈ a.names, n.text = a.column.text ∨ n.text = lookup) :
    assignInTurn arithmetic columns row as = assignAll arithmetic columns row as := by
  suffices h : ∀ new : List Cell, (∀ a ∈ as, ∀ n ∈ a.names,
      cell? columns new n.text = cell? columns row n.text) →
      assignInTurn arithmetic columns new as =
        as.foldl (fun new a => setCell columns new a.column.text
          (caseValue arithmetic columns row a.otherwise a.branches)) new from
    h row fun _ _ _ _ => rfl
  induction as with
  | nil => exact fun _ _ => rfl
  | cons a as ih =>
    intro new hnew
    obtain ⟨ha, hrest⟩ := List.nodup_cons.mp hn
    have hvalue : caseValue arithmetic columns new a.otherwise a.branches =
        caseValue arithmetic columns row a.otherwise a.branches :=
      caseValue_congr (hnew a (by simp))
    rw [assignInTurn, List.foldl_cons, hvalue, List.foldl_cons]
    apply ih hrest (fun b hb => hlookup b (by simp [hb])) fun b hb => hnames b (by simp [hb])
    intro b hb n hmem
    have hne : n.text ≠ a.column.text := by
      rcases hnames b (by simp [hb]) n hmem with hown | hkey
      · rw [hown]
        intro hab
        exact ha (List.mem_map.mpr ⟨b, hb, hab⟩)
      · rw [hkey]
        exact (hlookup a (by simp)).symm
    rw [cell?_setCell, if_neg hne]
    exact hnew b (by simp [hb]) n hmem

end Rows

/-- The table after an update by a database that makes assignments in turn, and how many rows were
touched. Which rows these are is decided before. -/
def Table.updateInTurn (arithmetic : Arithmetic) (t : Table) (u : Update) : Table × Nat :=
  ({ t with rows := t.rows.map fun row =>
      if touches u t.columns row then assignInTurn arithmetic t.columns row u.assignments else row },
    t.rows.countP (touches u t.columns))

/-- Separate assignments may be made all at once or in turn, and in any order. -/
theorem update_of_perm {u : Update} (hu : u.Separate) (arithmetic : Arithmetic) (t : Table)
    {as : List Assignment} (h : as.Perm u.assignments) :
    t.update arithmetic { u with assignments := as } = t.update arithmetic u ∧
      t.updateInTurn arithmetic { u with assignments := as } = t.update arithmetic u := by
  have hn : (as.map fun a => a.column.text).Nodup := (h.map _).nodup_iff.mpr hu.nodup
  have hall (row : List Cell) : assignAll arithmetic t.columns row as =
      assignAll arithmetic t.columns row u.assignments := assignAll_perm h hn
  have hturn (row : List Cell) : assignInTurn arithmetic t.columns row as =
      assignAll arithmetic t.columns row u.assignments := by
    rw [← hall]
    exact assignInTurn_eq hn (fun a ha => hu.ne_lookup a (h.mem_iff.mp ha))
      fun a ha => hu.names a (h.mem_iff.mp ha)
  have htouches : touches { u with assignments := as } = touches u := rfl
  constructor
  · simp only [Table.update, hall, htouches]
  · simp only [Table.updateInTurn, Table.update, hturn, htouches]

/-- Renaming that leaves an update alone leaves each of its assignments alone. -/
theorem mapNames_of_perm {f : Name → Name} {u : Update} (hu : u.mapNames f = u)
    {as : List Assignment} (h : as.Perm u.assignments) :
    Update.mapNames f { u with assignments := as } = { u with assignments := as } := by
  have hlookup : f u.lookup = u.lookup := congrArg Update.lookup hu
  have hall : u.assignments.map (Assignment.mapNames f) = u.assignments.map id := by
    rw [List.map_id]
    exact congrArg Update.assignments hu
  have hmap : as.map (Assignment.mapNames f) = as := by
    apply Batch.map_eq_self
    intro a ha
    exact List.map_eq_map_iff.mp hall a (h.mem_iff.mp ha)
  rw [Update.mapNames, hmap, hlookup]

theorem isWellNamed_of_perm (u : Update) (columns : List String) {as : List Assignment}
    (h : as.Perm u.assignments) :
    isWellNamed { u with assignments := as } columns = isWellNamed u columns := by
  rw [isWellNamed, isWellNamed, h.all_eq]

/-- What a database does for separate assignments in any order, if the columns of the table have the
names of the update in the case in which it has them. -/
theorem run_of_perm {u : Update} (hu : u.Separate) (arithmetic : Arithmetic) {db : Database}
    {t : Table} (ht : db.table? u.table.text = some t) (hresolve : u.mapNames (resolve t.columns) = u)
    (hnamed : isWellNamed u t.columns) {as : List Assignment} (h : as.Perm u.assignments) :
    db.run arithmetic { u with assignments := as } =
      some (db.replace (t.update arithmetic u).1, (t.update arithmetic u).2) := by
  have hresolve' := mapNames_of_perm hresolve h
  have hnamed' : isWellNamed { u with assignments := as } t.columns := by
    rwa [isWellNamed_of_perm u t.columns h]
  rw [run_eq_update (u := { u with assignments := as }) ht hresolve' hnamed',
    (update_of_perm hu arithmetic t h).1]

end Database

namespace Batch

theorem NewValue.names_expr {style : Sql.NameStyle} {column : String} {v : NewValue}
    (hv : v.isFinite) : ∀ n ∈ (v.expr style column).names, n.text = column := by
  intro n hn
  cases v with
  | null => cases hn
  | text s => cases hn
  | step s =>
    obtain ⟨negative, digits, hexpr, -⟩ := Operand.expr_of_isFinite hv
    simp only [NewValue.expr, Sql.Expr.names, hexpr, List.append_nil, List.mem_singleton] at hn
    rw [hn]

theorem Plan.names_assignmentOf (p : Plan) {b : String × List (String × NewValue)}
    (hb : ∀ w ∈ b.2, w.2.isFinite) :
    ∀ n ∈ (p.assignmentOf b).names, n.text = b.1 ∨ n.text = p.lookup := by
  intro n hn
  rcases List.mem_cons.mp hn with rfl | hn
  · exact .inl rfl
  · obtain ⟨w, hw, hn⟩ := List.mem_flatMap.mp hn
    obtain ⟨v, hv, rfl⟩ := List.mem_map.mp hw
    rcases List.mem_cons.mp hn with rfl | hn
    · exact .inr rfl
    · exact .inl (NewValue.names_expr (hb v hv) n hn)

section Plan

variable (target : Target) {lookup : String} {rows : List Row}

theorem ne_lookup_of_planOf : ∀ a ∈ (planOf target lookup rows).update.assignments,
    a.column.text ≠ lookup := by
  intro a ha
  have hmem : a.column.text ∈ touchedColumns lookup rows := by
    rw [← assignedColumns_planOf target]
    exact List.mem_map_of_mem ha
  exact (mem_touchedColumns.mp hmem).1

variable {target}

theorem separate_planOf (h : (planOf target lookup rows).IsFinite) :
    (planOf target lookup rows).update.Separate := by
  refine ⟨nodup_assignedColumns target lookup rows, ne_lookup_of_planOf target, ?_⟩
  intro a ha
  obtain ⟨b, hb, rfl⟩ := List.mem_map.mp ha
  exact Plan.names_assignmentOf _ (h b hb)

end Plan

/-- Assignments do not interfere. By the lexical rules of the dialect the text of a batch is an
update that assigns no column twice and the lookup column never. If all operands are numbers, a new
value is made of its own column and the lookup column alone, and so it makes no difference to any
table in what order the assignments are made, nor whether all of them look at the old row or each one
at what those before it left. Names count as they are written: where a table has them so, this is
what its database does, which looks names up in any case. -/
theorem Compiler.assignments_are_separate {k : Compiler} {options : Options} {inputs : List Input}
    {c : Compiled} (hraw : options.raw = false) (h : (k.compile options inputs).1 = .ok c) :
    ∃ rows u, stampedRows k.target k.now inputs = .ok rows ∧
      Sql.Update.read k.target.dialect.lexis c.statement.sql = some u ∧
      u.lookup.text = lookupColumn k.target options ∧
      (u.assignments.map fun a => a.column.text).Nodup ∧
      (∀ a ∈ u.assignments, a.column.text ≠ lookupColumn k.target options) ∧
      ((planOf k.target (lookupColumn k.target options) rows).IsFinite →
        (∀ a ∈ u.assignments, ∀ n ∈ a.names,
          n.text = a.column.text ∨ n.text = lookupColumn k.target options) ∧
        ∀ (arithmetic : Database.Arithmetic) (t : Database.Table) (as : List Sql.Assignment),
          as.Perm u.assignments →
          t.update arithmetic { u with assignments := as } = t.update arithmetic u ∧
          t.updateInTurn arithmetic { u with assignments := as } = t.update arithmetic u ∧
          ∀ db : Database, Serves db t c.statement.table c.statement.lookup
              (c.statement.blocks.map Block.column) →
            db.run arithmetic { u with assignments := as } =
              some (db.replace (t.update arithmetic u).1, (t.update arithmetic u).2)) := by
  obtain ⟨rows, hrows, hc, hread, -⟩ :=
    Compiler.read_statement k.target.dialect.lexis rfl rfl rfl hraw h
  refine ⟨rows, _, hrows, hread, rfl, nodup_assignedColumns _ _ _, ne_lookup_of_planOf _, ?_⟩
  intro hfinite
  have hseparate := separate_planOf hfinite
  refine ⟨hseparate.names, ?_⟩
  intro arithmetic t as hperm
  obtain ⟨hupdate, hturn⟩ := Database.update_of_perm hseparate arithmetic t hperm
  refine ⟨hupdate, hturn, ?_⟩
  intro db hdb
  have hserves := hdb.of_compiledColumns hc
  have hnamed := Plan.isWellNamed_update hfinite hserves.hasLookup hserves.column_mem
  exact Database.run_of_perm hseparate arithmetic hserves.table? (hserves.mapNames hfinite) hnamed
    hperm

/-- Two columns of a row, one with a step, assigned in turn and in the other order. -/
theorem Compiler.assignments_are_separate_of_two :
    let t : Database.Table := ⟨"t", ["id", "n", "m"], [[some "1", some "5", none]]⟩
    let after : Database.Table := ⟨"t", ["id", "n", "m"], [[some "1", some "7", some "x"]]⟩
    ∃ c u, ((Compiler.new ((Target.ofTable "t" "id").withDialect .mySql)
        ⟨⟨2024, 1, 1⟩, ⟨0, 0, 0, 0⟩⟩).compile .default
          [.row (.ofList [("id", .scalar (.int 1)), ("n", .step ⟨.add, .int 2⟩),
            ("m", .scalar (.text "x"))])]).1 = .ok c ∧
      Sql.Update.read Sql.Dialect.mySql.lexis c.statement.sql = some u ∧
      t.updateInTurn .numeric { u with assignments := u.assignments.reverse } = (after, 1) ∧
      Database.run .numeric ⟨[t]⟩ { u with assignments := u.assignments.reverse } =
        some (⟨[after]⟩, 1) := by
  intro t after
  have h : ((Compiler.new ((Target.ofTable "t" "id").withDialect .mySql)
      ⟨⟨2024, 1, 1⟩, ⟨0, 0, 0, 0⟩⟩).compile .default
        [.row (.ofList [("id", .scalar (.int 1)), ("n", .step ⟨.add, .int 2⟩),
          ("m", .scalar (.text "x"))])]).1 =
      .ok ⟨⟨"t", "id", .backtick, false, [⟨"n", [⟨"1", .step ⟨.add, .int 2⟩⟩]⟩,
        ⟨"m", [⟨"1", .literal "x"⟩]⟩], ["1"]⟩, [.int 1]⟩ := rfl
  have hserves : Serves ⟨[t]⟩ t "t" "id" ["n", "m"] :=
    Serves.single (by decide) (by decide) (by decide) (by decide)
  obtain ⟨rows, u, hrows, hread, -, -, -, hsame⟩ := Compiler.assignments_are_separate rfl h
  obtain ⟨rows', hrows', -, hplan, -⟩ :=
    Compiler.read_statement Sql.Dialect.mySql.lexis rfl rfl rfl rfl h
  cases hrows
  cases hrows'
  have hu := Option.some.inj (hread.symm.trans hplan)
  obtain ⟨-, htable⟩ := hsame (by decide +kernel)
  obtain ⟨-, hturn, hrun⟩ := htable .numeric t _ (List.reverse_perm _)
  have hafter : t.update .numeric u = (after, 1) := by
    rw [hu]
    decide +kernel
  refine ⟨_, u, h, hread, hturn.trans hafter, ?_⟩
  rw [hrun _ hserves, hafter]
  rfl

/-- An operand that is no number is read as a column of its name. Rows with the same key and the same
old value then get different ones, and assigning in turn gives others than assigning at once. -/
theorem Compiler.infinite_operand_interferes :
    ∃ c u, ((Compiler.new ((Target.ofTable "t" "id").withDialect .sqlite)
        ⟨⟨2024, 1, 1⟩, ⟨0, 0, 0, 0⟩⟩).compile .default
          [.row (.ofList [("id", .scalar (.int 1)), ("inf", .scalar (.text "7")),
            ("n", .step ⟨.add, .float (.infinite false)⟩)])]).1 = .ok c ∧
      Sql.Update.read Sql.Dialect.sqlite.lexis c.statement.sql = some u ∧
      (∃ a ∈ u.assignments, ∃ n ∈ a.names, n.text ≠ a.column.text ∧ n.text ≠ "id") ∧
      Database.Table.update .numeric ⟨"t", ["id", "inf", "n"],
          [[some "1", some "1", some "5"], [some "1", some "2", some "5"]]⟩ u =
        (⟨"t", ["id", "inf", "n"],
          [[some "1", some "7", some "6"], [some "1", some "7", some "7"]]⟩, 2) ∧
      Database.Table.updateInTurn .numeric ⟨"t", ["id", "inf", "n"],
          [[some "1", some "1", some "5"], [some "1", some "2", some "5"]]⟩ u =
        (⟨"t", ["id", "inf", "n"],
          [[some "1", some "7", some "12"], [some "1", some "7", some "12"]]⟩, 2) := by
  have h : ((Compiler.new ((Target.ofTable "t" "id").withDialect .sqlite)
      ⟨⟨2024, 1, 1⟩, ⟨0, 0, 0, 0⟩⟩).compile .default
        [.row (.ofList [("id", .scalar (.int 1)), ("inf", .scalar (.text "7")),
          ("n", .step ⟨.add, .float (.infinite false)⟩)])]).1 =
      .ok ⟨⟨"t", "id", .backtick, false, [⟨"inf", [⟨"1", .literal "7"⟩]⟩,
        ⟨"n", [⟨"1", .step ⟨.add, .float (.infinite false)⟩⟩]⟩], ["1"]⟩, [.int 1]⟩ := rfl
  obtain ⟨rows, hrows, -, hread, -⟩ :=
    Compiler.read_statement Sql.Dialect.sqlite.lexis rfl rfl rfl rfl h
  cases hrows
  exact ⟨_, _, h, hread, by decide +kernel, by decide +kernel, by decide +kernel⟩

end Batch

end CaseUpdate
