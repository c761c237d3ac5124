import CaseUpdate.Proofs.Database.Effect

namespace CaseUpdate.Batch

open Database (Arithmetic Cell Table cell?)
open Sql (Name Expr)

section Names

variable {f : Name → Name} {columns : List String}

theorem NewValue.mapNames_expr {style : Sql.NameStyle} {column : String}
    (hf : f ⟨style, column⟩ = ⟨style, column⟩) {v : NewValue} (hv : v.isFinite) :
    (v.expr style column).mapNames f = v.expr style column := by
  cases v with
  | null => rfl
  | text s => rfl
  | step s =>
    obtain ⟨negative, digits, hexpr, -⟩ := Operand.expr_of_isFinite hv
    simp only [NewValue.expr, Expr.mapNames, hexpr, hf]

theorem NewValue.exprReads {style : Sql.NameStyle} {column : String} (hc : column ∈ columns)
    {v : NewValue} (hv : v.isFinite) :
    Database.exprReads columns (v.expr style column) := by
  have hreads := Database.reads_of_mem (n := ⟨style, column⟩) hc
  cases v with
  | null => rfl
  | text s => rfl
  | step s =>
    obtain ⟨negative, digits, hexpr, -⟩ := Operand.expr_of_isFinite hv
    simp [NewValue.expr, Database.exprReads, hexpr, hreads]

/-- Renaming that leaves the names of a plan alone leaves its statement alone. -/
theorem Plan.mapNames_update {p : Plan} (hfinite : p.IsFinite)
    (hlookup : ∀ style, f ⟨style, p.lookup⟩ = ⟨style, p.lookup⟩)
    (hcolumns : ∀ b ∈ p.blocks, f ⟨p.style, b.1⟩ = ⟨p.style, b.1⟩) :
    p.update.mapNames f = p.update := by
  have hassignments : p.update.assignments.map (Sql.Assignment.mapNames f) =
      p.update.assignments := by
    rw [Plan.update, List.map_map]
    apply List.map_congr_left
    intro b hb
    have hcolumn := hcolumns b hb
    have hbranches : (p.assignmentOf b).branches.map (Sql.When.mapNames f) =
        (p.assignmentOf b).branches := by
      rw [Plan.assignmentOf, List.map_map]
      apply List.map_congr_left
      intro w hw
      have hexpr := NewValue.mapNames_expr hcolumn (hfinite b hb w hw)
      simp only [Function.comp_apply, Plan.whenOf, Sql.When.mapNames, hlookup, hexpr]
    rw [Function.comp_apply, Sql.Assignment.mapNames, hbranches]
    simp only [Plan.assignmentOf, hcolumn]
  have htable : f p.update.lookup = p.update.lookup := hlookup _
  rw [Sql.Update.mapNames, hassignments, htable]

theorem Plan.isWellNamed_update {p : Plan} (hfinite : p.IsFinite) (hlookup : p.lookup ∈ columns)
    (hcolumns : ∀ b ∈ p.blocks, b.1 ∈ columns) : Database.isWellNamed p.update columns := by
  have hkey : Database.reads columns p.update.lookup := Database.reads_of_mem hlookup
  rw [Database.isWellNamed, hkey, Bool.true_and, List.all_eq_true]
  intro a ha
  obtain ⟨b, hb, rfl⟩ := List.mem_map.mp ha
  have hcolumn := hcolumns b hb
  have hself : Database.reads columns (p.assignmentOf b).otherwise := Database.reads_of_mem hcolumn
  have hbranches : (p.assignmentOf b).branches.all fun w =>
      Database.reads columns w.lookup && Database.exprReads columns w.value := by
    rw [List.all_eq_true]
    intro w hw
    obtain ⟨v, hv, rfl⟩ := List.mem_map.mp hw
    have hwhen : Database.reads columns (p.whenOf b.1 v).lookup := Database.reads_of_mem hlookup
    have hvalue : Database.exprReads columns (p.whenOf b.1 v).value :=
      NewValue.exprReads hcolumn (hfinite b hb v hv)
    rw [hwhen, hvalue]
    rfl
  have hcontains : columns.contains (p.assignmentOf b).column.text := by
    simpa [Plan.assignmentOf] using hcolumn
  rw [hself, hbranches, hcontains]
  rfl

end Names

section Update

/-- A database that has a table with its name, the lookup column and the columns of a statement. -/
structure Serves (db : Database) (t : Table) (table lookup : String) (columns : List String) :
    Prop where
  wellFormed : db.WellFormed
  mem : t ∈ db.tables
  name : t.name = table
  hasLookup : lookup ∈ t.columns
  hasColumns : ∀ column ∈ columns, column ∈ t.columns

variable {arithmetic : Arithmetic} {db : Database} {t : Table} {target : Target} {lookup : String}
  {rows : List Row}

/-- A database of one table serves what is said of its columns. -/
theorem Serves.single {columns : List String} (hnames : (t.columns.map Database.nameKey).Nodup)
    (hlengths : ∀ row ∈ t.rows, row.length = t.columns.length) (hlookup : lookup ∈ t.columns)
    (hcolumns : ∀ column ∈ columns, column ∈ t.columns) : Serves ⟨[t]⟩ t t.name lookup columns := by
  refine ⟨⟨List.nodup_singleton _, ?_⟩, List.mem_singleton_self t, rfl, hlookup, hcolumns⟩
  intro t' ht'
  rw [List.mem_singleton.mp ht']
  exact ⟨hnames, hlengths⟩

/-- The names in a statement are those of its target and its rows. -/
theorem Serves.of_compiledColumns {options : Options} {c : Compiled}
    (h : Serves db t c.statement.table c.statement.lookup (c.statement.blocks.map Block.column))
    (hc : compiledColumns target options rows = .ok c) :
    Serves db t target.qualifiedTable (lookupColumn target options)
      (touchedColumns (lookupColumn target options) rows) := by
  obtain ⟨-, -, htable, hlookup, -, -, hblocks⟩ := compiledColumns_eq_ok hc
  rwa [htable, hlookup, (forall₂_blockOf hblocks).1] at h

theorem Serves.column_mem
    (h : Serves db t target.qualifiedTable lookup (touchedColumns lookup rows)) :
    ∀ b ∈ (planOf target lookup rows).blocks, b.1 ∈ t.columns := by
  intro b hb
  obtain ⟨column, hcolumn, rfl⟩ := List.mem_map.mp hb
  exact h.hasColumns column hcolumn

theorem Serves.table? (h : Serves db t target.qualifiedTable lookup (touchedColumns lookup rows)) :
    db.table? (planOf target lookup rows).update.table.text = some t := by
  have ht := h.wellFormed.table? h.mem
  rwa [h.name] at ht

theorem Serves.mapNames
    (h : Serves db t target.qualifiedTable lookup (touchedColumns lookup rows))
    (hfinite : (planOf target lookup rows).IsFinite) :
    (planOf target lookup rows).update.mapNames (Database.resolve t.columns) =
      (planOf target lookup rows).update := by
  have hnames := (h.wellFormed.tables t h.mem).names
  apply Plan.mapNames_update hfinite
  · intro style
    exact Database.resolve_of_mem hnames h.hasLookup
  · intro b hb
    exact Database.resolve_of_mem hnames (h.column_mem b hb)

/-- The statement of a plan whose operands are numbers does to a table what the rows ask for. -/
theorem Serves.run (h : Serves db t target.qualifiedTable lookup (touchedColumns lookup rows))
    (hfinite : (planOf target lookup rows).IsFinite) :
    db.run arithmetic (planOf target lookup rows).update =
      some (db.replace (tableAfter arithmetic lookup rows t), touchedCount lookup rows t) := by
  have hwell := h.wellFormed.tables t h.mem
  have hrows : t.rows.map (fun row =>
      if Database.touches (planOf target lookup rows).update t.columns row then
        Database.assignAll arithmetic t.columns row (planOf target lookup rows).update.assignments
      else row) = t.rows.map (rowAfter arithmetic lookup rows t.columns) := by
    apply List.map_congr_left
    intro row hrow
    exact update_row target hwell.nodup (hwell.lengths row hrow) h.hasLookup hfinite
  have hcount : t.rows.countP (Database.touches (planOf target lookup rows).update t.columns) =
      touchedCount lookup rows t := by
    apply List.countP_congr
    intro row hrow
    rw [touches_update target (hwell.lengths row hrow) h.hasLookup]
  have hnamed := Plan.isWellNamed_update hfinite h.hasLookup h.column_mem
  rw [Database.run_eq_update h.table? (h.mapNames hfinite) hnamed, Table.update, hrows, hcount]
  rfl

/-- Whether a table has no column that goes by the name of an operand that is no number. -/
def LacksWords (t : Table) : Prop :=
  ∀ word ∈ ["inf", "NaN"], Database.nameKey word ∉ t.columns.map Database.nameKey

theorem exprReads_of_word {columns : List String} {word : String}
    (hword : Database.nameKey word ∉ columns.map Database.nameKey) :
    Database.exprReads columns
      ((Expr.column ⟨.backtick, word⟩).mapNames (Database.resolve columns)) = false := by
  have hmem : word ∉ columns := fun hc => hword (List.mem_map_of_mem hc)
  rw [Expr.mapNames, Database.resolve_of_not_mem hword]
  simp [Database.exprReads, Database.reads, hmem]

/-- An operand that is no number cannot be read where no column has its name. -/
theorem exprReads_operand (ht : LacksWords t) {x : Operand} (hx : x.isFinite = false) :
    Database.exprReads t.columns (x.expr.mapNames (Database.resolve t.columns)) = false := by
  have hinf := exprReads_of_word (ht "inf" (by simp))
  have hnan := exprReads_of_word (ht "NaN" (by simp))
  cases x with
  | int n => cases hx
  | float x =>
    cases x with
    | nan negative => exact hnan
    | infinite negative =>
      cases negative with
      | false => exact hinf
      | true => exact hinf
    | finite negative x => cases hx

theorem exprReads_of_not_isFinite (ht : LacksWords t) {style : Sql.NameStyle} {column : String}
    {v : NewValue} (hv : ¬ v.isFinite) :
    Database.exprReads t.columns
      ((v.expr style column).mapNames (Database.resolve t.columns)) = false := by
  cases v with
  | null => exact absurd rfl hv
  | text s => exact absurd rfl hv
  | step s =>
    have hoperand := exprReads_operand ht (by simpa [NewValue.isFinite] using hv)
    rw [NewValue.expr, Expr.mapNames, Database.exprReads, hoperand, Bool.and_false]

theorem isWellNamed_of_not_isFinite {p : Plan} (ht : LacksWords t) (hp : ¬ p.IsFinite) :
    Database.isWellNamed (p.update.mapNames (Database.resolve t.columns)) t.columns = false := by
  simp only [Plan.IsFinite, not_forall, exists_prop] at hp
  obtain ⟨b, hb, w, hw, hfinite⟩ := hp
  rw [Bool.eq_false_iff]
  intro hnamed
  obtain ⟨-, hall⟩ := Bool.and_eq_true_iff.mp hnamed
  have hassignment := List.all_eq_true.mp hall _
    (List.mem_map_of_mem (List.mem_map_of_mem hb))
  obtain ⟨-, hbranches⟩ := Bool.and_eq_true_iff.mp hassignment
  have hbranch := List.all_eq_true.mp hbranches _
    (List.mem_map_of_mem (List.mem_map_of_mem hw))
  obtain ⟨-, hreads⟩ := Bool.and_eq_true_iff.mp hbranch
  have hfalse : Database.exprReads t.columns
      ((w.2.expr p.style b.1).mapNames (Database.resolve t.columns)) = false :=
    exprReads_of_not_isFinite ht hfinite
  exact Bool.false_ne_true (hfalse.symm.trans hreads)

theorem Serves.run_of_not_isFinite
    (h : Serves db t target.qualifiedTable lookup (touchedColumns lookup rows))
    (ht : LacksWords t) (hp : ¬ (planOf target lookup rows).IsFinite) :
    db.run arithmetic (planOf target lookup rows).update = none := by
  rw [Database.run, h.table?]
  dsimp only
  rw [isWellNamed_of_not_isFinite ht hp]
  rfl

end Update

section Execution

variable {arithmetic : Arithmetic} {db : Database}

theorem execute_eq (sql : String) :
    db.execute arithmetic sql =
      (Sql.Update.read Database.lexis
        (String.ofList (sql.toList.takeWhile (· ≠ '\x00')))).bind (db.run arithmetic) := rfl

theorem execute_of_read {sql : String} {u : Sql.Update} (hnul : '\x00' ∉ sql.toList)
    (hread : Sql.Update.read Database.lexis sql = some u) :
    db.execute arithmetic sql = db.run arithmetic u := by
  have hall : sql.toList.takeWhile (· ≠ '\x00') = sql.toList := by
    rw [List.takeWhile_eq_self_iff]
    intro c hc
    have hne : c ≠ '\x00' := fun he => hnul (he ▸ hc)
    simpa using hne
  rw [execute_eq, hall, String.ofList_toList, hread]
  rfl

/-- Nothing happens where a statement is not read up to its first NUL character. -/
theorem execute_of_nul {sql : String} (hnul : '\x00' ∈ sql.toList)
    (hcut : ∀ cut rest, sql.toList = cut ++ '\x00' :: rest → Sql.scan Database.lexis cut = none) :
    db.execute arithmetic sql = none := by
  have hsplit := List.takeWhile_append_dropWhile (p := (· ≠ '\x00')) (l := sql.toList)
  cases hd : sql.toList.dropWhile (· ≠ '\x00') with
  | nil =>
    have hall := List.dropWhile_eq_nil_iff.mp hd _ hnul
    simp at hall
  | cons c rest =>
    have hc : c = '\x00' := by
      have hhead := List.head?_dropWhile_not (· ≠ '\x00') sql.toList
      rw [hd] at hhead
      simpa using hhead
    rw [hd, hc] at hsplit
    have hscan := hcut _ rest hsplit.symm
    rw [execute_eq, Sql.Update.read, String.toList_ofList, hscan]
    rfl

end Execution

/-- A database reads from the text of a batch the statement of its plan, unless a NUL character cuts
the text off. -/
theorem Compiler.execute_eq_run {k : Compiler} {options : Options} {inputs : List Input}
    {c : Compiled} (hdialect : k.target.dialect = .sqlite) (hraw : options.raw = false)
    (h : (k.compile options inputs).1 = .ok c) :
    ∃ rows, stampedRows k.target k.now inputs = .ok rows ∧
      compiledColumns k.target options rows = .ok c ∧
      ∀ (arithmetic : Arithmetic) (db : Database),
        ('\x00' ∉ c.statement.sql.toList → db.execute arithmetic c.statement.sql =
          db.run arithmetic (planOf k.target (lookupColumn k.target options) rows).update) ∧
        ('\x00' ∈ c.statement.sql.toList → db.execute arithmetic c.statement.sql = none) := by
  have hliterals : Database.lexis.literals = k.target.literalStyle := by
    rw [Target.literalStyle, hdialect]
    rfl
  have hdoubled : Database.lexis.doubled k.target.nameStyle := by
    rw [Target.nameStyle, hdialect]
    rfl
  obtain ⟨rows, hrows, hc, hread, hcut⟩ :=
    Compiler.read_statement Database.lexis hliterals hdoubled rfl hraw h
  exact ⟨rows, hrows, hc, fun arithmetic db =>
    ⟨fun hmem => execute_of_read hmem hread, fun hmem => execute_of_nul hmem hcut⟩⟩

/-- What the statement of a batch does to a table of text that has its columns. If all operands are
numbers and the text has no NUL character, every row whose lookup cell is the key of some row of the
batch gets, in each column that a row with this key carries, what the first such row gives; nothing
else changes, and the rows with a key are counted. Whatever stands in the table, nothing is executed
if the text has a NUL character, where a database takes the statement to end, nor if an operand is no
number, since its word is then the name of a column that the table lacks. -/
theorem Compiler.execute_compiled {k : Compiler} {options : Options} {inputs : List Input}
    {c : Compiled} {db : Database} {t : Table} (arithmetic : Arithmetic)
    (hdialect : k.target.dialect = .sqlite) (hraw : options.raw = false)
    (h : (k.compile options inputs).1 = .ok c)
    (hdb : Serves db t c.statement.table c.statement.lookup
      (c.statement.blocks.map Block.column)) :
    ∃ rows, stampedRows k.target k.now inputs = .ok rows ∧
      ((planOf k.target (lookupColumn k.target options) rows).IsFinite →
        '\x00' ∉ c.statement.sql.toList →
        db.execute arithmetic c.statement.sql =
          some (db.replace (tableAfter arithmetic (lookupColumn k.target options) rows t),
            touchedCount (lookupColumn k.target options) rows t)) ∧
      ('\x00' ∈ c.statement.sql.toList → db.execute arithmetic c.statement.sql = none) ∧
      (LacksWords t → ¬ (planOf k.target (lookupColumn k.target options) rows).IsFinite →
        db.execute arithmetic c.statement.sql = none) := by
  obtain ⟨rows, hrows, hc, hexecute⟩ := Compiler.execute_eq_run hdialect hraw h
  obtain ⟨hrun, hnul⟩ := hexecute arithmetic db
  have hserves := hdb.of_compiledColumns hc
  refine ⟨rows, hrows, ?_, hnul, ?_⟩
  · intro hfinite hmem
    rw [hrun hmem]
    exact hserves.run hfinite
  · intro hwords hfinite
    by_cases hmem : '\x00' ∈ c.statement.sql.toList
    · exact hnul hmem
    · rw [hrun hmem]
      exact hserves.run_of_not_isFinite hwords hfinite

/-- One row of two is touched. -/
theorem Compiler.execute_compiled_of_text :
    Database.execute .numeric ⟨[⟨"t", ["id", "n"], [[some "1", some "5"], [none, none]]⟩]⟩
      (String.append "UPDATE \"t\" SET \x60n\x60 = (CASE\nWHEN \x60id\x60 = '1' THEN 'x'"
        "\nELSE \x60n\x60 END) WHERE \"id\" IN('1');") =
      some (⟨[⟨"t", ["id", "n"], [[some "1", some "x"], [none, none]]⟩]⟩, 1) := by
  have h : ((Compiler.new ((Target.ofTable "t" "id").withDialect .sqlite)
      ⟨⟨2024, 1, 1⟩, ⟨0, 0, 0, 0⟩⟩).compile .default
        [.row (.ofList [("id", .scalar (.int 1)), ("n", .scalar (.text "x"))])]).1 =
      .ok ⟨⟨"t", "id", .backtick, false, [⟨"n", [⟨"1", .literal "x"⟩]⟩], ["1"]⟩, [.int 1]⟩ := rfl
  have hserves : Serves ⟨[⟨"t", ["id", "n"], [[some "1", some "5"], [none, none]]⟩]⟩
      ⟨"t", ["id", "n"], [[some "1", some "5"], [none, none]]⟩ "t" "id" ["n"] :=
    Serves.single (by decide) (by decide) (by decide) (by decide)
  obtain ⟨rows, hrows, heffect, -, -⟩ := Compiler.execute_compiled .numeric rfl rfl h hserves
  cases hrows
  exact heffect (by decide +kernel) (by decide +kernel)

/-- A number that is infinite is written as a word, and the statement is refused, although no row of
the table has the key. -/
theorem Compiler.execute_refuses_infinite :
    ∃ c : Compiled, ((Compiler.new ((Target.ofTable "t" "id").withDialect .sqlite)
        ⟨⟨2024, 1, 1⟩, ⟨0, 0, 0, 0⟩⟩).compile .default
          [.row (.ofList [("id", .scalar (.int 2)),
            ("n", .step ⟨.add, .float (.infinite false)⟩)])]).1 = .ok c ∧
      Serves ⟨[⟨"t", ["id", "n"], [[some "1", some "5"]]⟩]⟩
        ⟨"t", ["id", "n"], [[some "1", some "5"]]⟩ c.statement.table c.statement.lookup
        (c.statement.blocks.map Block.column) ∧
      ∀ arithmetic, Database.execute arithmetic ⟨[⟨"t", ["id", "n"], [[some "1", some "5"]]⟩]⟩
        c.statement.sql = none := by
  have h : ((Compiler.new ((Target.ofTable "t" "id").withDialect .sqlite)
      ⟨⟨2024, 1, 1⟩, ⟨0, 0, 0, 0⟩⟩).compile .default
        [.row (.ofList [("id", .scalar (.int 2)),
          ("n", .step ⟨.add, .float (.infinite false)⟩)])]).1 =
      .ok ⟨⟨"t", "id", .backtick, false,
        [⟨"n", [⟨"2", .step ⟨.add, .float (.infinite false)⟩⟩]⟩], ["2"]⟩, [.int 2]⟩ := rfl
  obtain ⟨rows, hrows, -, hexecute⟩ := Compiler.execute_eq_run rfl rfl h
  cases hrows
  refine ⟨_, h, Serves.single (by decide) (by decide) (by decide) (by decide), ?_⟩
  intro arithmetic
  rw [(hexecute arithmetic _).1 (by decide +kernel)]
  rfl

end CaseUpdate.Batch
