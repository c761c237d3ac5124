import CaseUpdate.Proofs.Batch.Alone
import CaseUpdate.Proofs.Database.Execution
import CaseUpdate.Proofs.Database.Invariant

namespace CaseUpdate

open Database (Arithmetic Cell Table cell?)

namespace Database

variable {db : Database} {t : Table}

theorem WellFormed.replace_self (h : db.WellFormed) (ht : t ∈ db.tables) : db.replace t = db := by
  have hall : db.tables.map (fun old => if old.name = t.name then t else old) = db.tables := by
    apply Batch.map_eq_self
    intro old hold
    split_ifs with hname
    · exact List.inj_on_of_nodup_map h.names ht hold (congrArg nameKey hname.symm)
    · rfl
  rw [Database.replace, hall]

theorem replace_replace {t' : Table} (h : t.name = t'.name) :
    (db.replace t).replace t' = db.replace t' := by
  simp only [Database.replace, List.map_map]
  congr 1
  apply List.map_congr_left
  intro old _
  by_cases hname : old.name = t'.name <;> simp [h, hname]

end Database

namespace Batch

open Calendar (Instant)

/-- What the rows that have a key give for a column, in their order. -/
def changesOf (lookup : String) (rows : List Row) (key column : String) : List Change :=
  rows.filterMap fun r => if keyText (keyIn lookup r) = key then r.get? column else none

/-- A cell of a table row after all that the rows with its key give, one after another. -/
def cellAfterEach (arithmetic : Arithmetic) (lookup : String) (rows : List Row)
    (key column : String) (old : Cell) : Cell :=
  if column = lookup then old
  else (changesOf lookup rows key column).foldl
    (fun new c => (newValue c).cell arithmetic new) old

def rowAfterEach (arithmetic : Arithmetic) (lookup : String) (rows : List Row)
    (columns : List String) (row : List Cell) : List Cell :=
  match touchedKey lookup rows columns row with
  | some key => columns.map fun column =>
    cellAfterEach arithmetic lookup rows key column (cell? columns row column).join
  | none => row

def tableAfterEach (arithmetic : Arithmetic) (lookup : String) (rows : List Row) (t : Table) :
    Table :=
  { t with rows := t.rows.map (rowAfterEach arithmetic lookup rows t.columns) }

/-- Executes the statement of an input alone. An input with nothing to update is skipped. -/
def executeAlone (arithmetic : Arithmetic) (target : Target) (now : Instant) (options : Options)
    (db : Database) (i : Input) : Option Database :=
  match compile target now options [i] with
  | .ok c => (db.execute arithmetic c.statement.sql).map Prod.fst
  | .error (.nothingToUpdate _) => some db
  | .error _ => none

/-- Executes the statements of inputs one after another. -/
def executeEach (arithmetic : Arithmetic) (target : Target) (now : Instant) (options : Options)
    (db : Database) (inputs : List Input) : Option Database :=
  inputs.foldlM (executeAlone arithmetic target now options) db

def NewValue.isStep : NewValue → Bool
  | .step _ => true
  | _ => false

/-- Whether a change does again what another one did: the same, and it is no step. -/
def Repeats (c c' : Change) : Prop := newValue c = newValue c' ∧ ¬ (newValue c).isStep

instance (c c' : Change) : Decidable (Repeats c c') := inferInstanceAs (Decidable (_ ∧ _))

/-- Whether rows with the same key only repeat each other in the columns that they share. -/
def Agree (lookup : String) (rows : List Row) : Prop :=
  rows.Pairwise fun r r' => keyText (keyIn lookup r) = keyText (keyIn lookup r') →
    ∀ m ∈ r.entries, ∀ m' ∈ r'.entries, m.1 = m'.1 → m.1 = lookup ∨ Repeats m.2 m'.2

instance (lookup : String) (rows : List Row) : Decidable (Agree lookup rows) :=
  inferInstanceAs (Decidable (rows.Pairwise _))

section Cells

variable {arithmetic : Arithmetic} {lookup : String} {rows : List Row} {key column : String}

theorem firstChange_eq (lookup : String) (rows : List Row) (key column : String) :
    firstChange lookup rows key column = (changesOf lookup rows key column).head? := by
  rw [firstChange, changesOf, List.head?_filterMap]

theorem cellAfterEach_single (r : Row) (old : Cell) :
    cellAfterEach arithmetic lookup [r] key column old =
      cellAfter arithmetic lookup [r] key column old := by
  rw [cellAfter, cellAfterEach, firstChange_eq, changesOf, List.filterMap_cons]
  cases (if keyText (keyIn lookup r) = key then r.get? column else none) <;> rfl

theorem cellAfterEach_append (rows' : List Row) (old : Cell) :
    cellAfterEach arithmetic lookup (rows ++ rows') key column old =
      cellAfterEach arithmetic lookup rows' key column
        (cellAfterEach arithmetic lookup rows key column old) := by
  unfold cellAfterEach changesOf
  split_ifs
  · rfl
  · rw [List.filterMap_append, List.foldl_append]

theorem cellAfterEach_of_onlyKeys (h : touchedColumns lookup rows = []) (old : Cell) :
    cellAfterEach arithmetic lookup rows key column old = old := by
  unfold cellAfterEach
  split_ifs with hc
  · rfl
  · have hchanges : changesOf lookup rows key column = [] := by
      rw [changesOf, List.filterMap_eq_nil_iff]
      intro r hr
      rw [get?_of_not_mem hc (List.eq_nil_iff_forall_not_mem.mp h column) hr, ite_self]
    rw [hchanges, List.foldl_nil]

/-- What is no step is stored over any cell alike. -/
theorem NewValue.cell_of_not_isStep {v : NewValue} (hv : ¬ v.isStep) (old old' : Cell) :
    v.cell arithmetic old = v.cell arithmetic old' := by
  cases v with
  | null => rfl
  | text s => rfl
  | step s => exact absurd rfl hv

theorem foldl_of_repeats {c : Change} {rest : List Change} (h : ∀ c' ∈ rest, Repeats c c')
    (old : Cell) : (c :: rest).foldl (fun new c => (newValue c).cell arithmetic new) old =
      (newValue c).cell arithmetic old := by
  rw [List.foldl_cons]
  induction rest with
  | nil => rfl
  | cons c' rest ih =>
    obtain ⟨heq, hstep⟩ := h c' (by simp)
    rw [List.foldl_cons, ← heq, NewValue.cell_of_not_isStep hstep _ old]
    exact ih fun d hd => h d (by simp [hd])

theorem Agree.pairwise (h : Agree lookup rows) (hc : column ≠ lookup) :
    (changesOf lookup rows key column).Pairwise Repeats := by
  refine List.Pairwise.filterMap _ ?_ h
  intro r r' hagree c hr c' hr'
  obtain ⟨hkey, hget⟩ := Option.ite_none_right_eq_some.mp hr
  obtain ⟨hkey', hget'⟩ := Option.ite_none_right_eq_some.mp hr'
  have hshared := hagree (hkey.trans hkey'.symm) _ (Ordered.mem_of_get? hget) _
    (Ordered.mem_of_get? hget') rfl
  exact hshared.resolve_left hc

/-- Where rows agree, the later ones with a key repeat what the first one did. -/
theorem Agree.cellAfterEach_eq (h : Agree lookup rows) (old : Cell) :
    cellAfterEach arithmetic lookup rows key column old =
      cellAfter arithmetic lookup rows key column old := by
  unfold cellAfterEach cellAfter
  split_ifs with hc
  · rfl
  · have hchanges : (changesOf lookup rows key column).Pairwise Repeats := h.pairwise hc
    rw [firstChange_eq]
    cases hl : changesOf lookup rows key column with
    | nil => rfl
    | cons c rest =>
      rw [hl, List.pairwise_cons] at hchanges
      exact foldl_of_repeats hchanges.1 old

end Cells

section Rows

variable {arithmetic : Arithmetic} {lookup : String} {rows : List Row} {columns : List String}
  {row : List Cell}

theorem changesOf_eq_nil {key : String} (h : key ∉ rows.map fun r => keyText (keyIn lookup r))
    (column : String) : changesOf lookup rows key column = [] := by
  rw [changesOf, List.filterMap_eq_nil_iff]
  intro r hr
  have hne : ¬ keyText (keyIn lookup r) = key := fun he => h (he ▸ List.mem_map_of_mem hr)
  rw [if_neg hne]

theorem rowAfterEach_of_null (hnull : cell? columns row lookup = some none) :
    rowAfterEach arithmetic lookup rows columns row = row := by
  have hnone : touchedKey lookup rows columns row = none := by
    rw [touchedKey, hnull]
    rfl
  rw [rowAfterEach, hnone]

theorem length_rowAfterEach (hlen : row.length = columns.length) :
    (rowAfterEach arithmetic lookup rows columns row).length = columns.length := by
  unfold rowAfterEach
  split
  · rw [List.length_map]
  · exact hlen

/-- The cells of a row after all rows of a batch, whether its key is among theirs or not. -/
theorem cell?_rowAfterEach {key : String} (hkey : cell? columns row lookup = some (some key))
    {c : String} (hc : c ∈ columns) {old : Cell} (hold : cell? columns row c = some old) :
    cell? columns (rowAfterEach arithmetic lookup rows columns row) c =
      some (cellAfterEach arithmetic lookup rows key c old) := by
  unfold rowAfterEach touchedKey
  rw [hkey, Option.join_some, Option.filter_some]
  by_cases hmem : key ∈ rows.map fun r => keyText (keyIn lookup r)
  · rw [if_pos (by simpa using hmem)]
    dsimp only
    rw [Database.cell?_map _ hc, hold, Option.join_some]
  · rw [if_neg (by simpa using hmem)]
    dsimp only
    rw [hold, cellAfterEach, changesOf_eq_nil hmem, List.foldl_nil, ite_self]

/-- Rows one after another: those that come later find what the first ones left. The lookup cell is
never changed, so that all of them find the same key. -/
theorem rowAfterEach_append (hn : columns.Nodup) (hlen : row.length = columns.length)
    (hlookup : lookup ∈ columns) (rows' : List Row) :
    rowAfterEach arithmetic lookup (rows ++ rows') columns row =
      rowAfterEach arithmetic lookup rows' columns
        (rowAfterEach arithmetic lookup rows columns row) := by
  have hlen' : (rowAfterEach arithmetic lookup rows columns row).length = columns.length :=
    length_rowAfterEach hlen
  obtain ⟨v, hv⟩ := Database.exists_cell? hlen hlookup
  cases v with
  | none => rw [rowAfterEach_of_null hv, rowAfterEach_of_null hv, rowAfterEach_of_null hv]
  | some key =>
    have hkey : cell? columns (rowAfterEach arithmetic lookup rows columns row) lookup =
        some (some key) := by
      rw [cell?_rowAfterEach hv hlookup hv, cellAfterEach, if_pos rfl]
    apply Database.row_ext hn (length_rowAfterEach hlen) (length_rowAfterEach hlen')
    intro c hc
    obtain ⟨old, hold⟩ := Database.exists_cell? hlen hc
    have hnew : cell? columns (rowAfterEach arithmetic lookup rows columns row) c =
        some (cellAfterEach arithmetic lookup rows key c old) := cell?_rowAfterEach hv hc hold
    rw [cell?_rowAfterEach hv hc hold, cell?_rowAfterEach hkey hc hnew,
      cellAfterEach_append]

theorem rowAfterEach_of_onlyKeys (hn : columns.Nodup) (hlen : row.length = columns.length)
    (hlookup : lookup ∈ columns) (hrows : touchedColumns lookup rows = []) :
    rowAfterEach arithmetic lookup rows columns row = row := by
  obtain ⟨v, hv⟩ := Database.exists_cell? hlen hlookup
  cases v with
  | none => exact rowAfterEach_of_null hv
  | some key =>
    apply Database.row_ext hn (length_rowAfterEach hlen) hlen
    intro c hc
    obtain ⟨old, hold⟩ := Database.exists_cell? hlen hc
    rw [cell?_rowAfterEach hv hc hold, hold, cellAfterEach_of_onlyKeys hrows]

theorem rowAfterEach_eq (h : ∀ key column old, cellAfterEach arithmetic lookup rows key column old =
    cellAfter arithmetic lookup rows key column old) :
    rowAfterEach arithmetic lookup rows columns row =
      rowAfter arithmetic lookup rows columns row := by
  unfold rowAfterEach rowAfter
  cases touchedKey lookup rows columns row with
  | none => rfl
  | some key => simp only [h]

end Rows

section Tables

variable {arithmetic : Arithmetic} {lookup : String} {rows : List Row} {t : Table}

theorem wellFormed_tableAfterEach (h : t.WellFormed) :
    (tableAfterEach arithmetic lookup rows t).WellFormed := by
  refine ⟨h.names, ?_⟩
  intro new hnew
  obtain ⟨row, hrow, rfl⟩ := List.mem_map.mp hnew
  exact length_rowAfterEach (h.lengths row hrow)

theorem tableAfterEach_append (h : t.WellFormed) (hlookup : lookup ∈ t.columns)
    (rows rows' : List Row) :
    tableAfterEach arithmetic lookup (rows ++ rows') t =
      tableAfterEach arithmetic lookup rows' (tableAfterEach arithmetic lookup rows t) := by
  simp only [tableAfterEach, List.map_map]
  congr 1
  apply List.map_congr_left
  intro row hrow
  exact rowAfterEach_append h.nodup (h.lengths row hrow) hlookup rows'

/-- Where the changes come to the same in each cell, they do in the table. -/
theorem tableAfterEach_eq (h : ∀ key column old, cellAfterEach arithmetic lookup rows key column old =
    cellAfter arithmetic lookup rows key column old) :
    tableAfterEach arithmetic lookup rows t = tableAfter arithmetic lookup rows t := by
  rw [tableAfterEach, tableAfter]
  congr 2
  funext row
  exact rowAfterEach_eq h

/-- Rows with nothing besides their keys change nothing. -/
theorem tableAfterEach_of_onlyKeys (h : t.WellFormed) (hlookup : lookup ∈ t.columns)
    (hrows : touchedColumns lookup rows = []) : tableAfterEach arithmetic lookup rows t = t := by
  have hall : t.rows.map (rowAfterEach arithmetic lookup rows t.columns) = t.rows := by
    apply map_eq_self
    intro row hrow
    exact rowAfterEach_of_onlyKeys h.nodup (h.lengths row hrow) hlookup hrows
  rw [tableAfterEach, hall]

end Tables

section Databases

variable (arithmetic : Arithmetic) {db : Database} {t : Table} {target : Target} {now : Instant}
  {options : Options} {lookup : String} {rows : List Row} {r : Row}

theorem Serves.mono {table : String} {columns columns' : List String}
    (h : Serves db t table lookup columns) (hsub : columns' ⊆ columns) :
    Serves db t table lookup columns' :=
  ⟨h.wellFormed, h.mem, h.name, h.hasLookup, fun column hc => h.hasColumns column (hsub hc)⟩

theorem Serves.replace {table : String} {columns : List String}
    (h : Serves db t table lookup columns) (rows : List Row) :
    Serves (db.replace (tableAfterEach arithmetic lookup rows t))
      (tableAfterEach arithmetic lookup rows t) table lookup columns := by
  have hwell : (tableAfterEach arithmetic lookup rows t).WellFormed :=
    wellFormed_tableAfterEach (h.wellFormed.tables t h.mem)
  refine ⟨h.wellFormed.replace hwell, ?_, h.name, h.hasLookup, h.hasColumns⟩
  exact List.mem_map.mpr ⟨t, h.mem, if_pos rfl⟩

theorem touchedColumns_subset (hr : r ∈ rows) :
    touchedColumns lookup [r] ⊆ touchedColumns lookup rows := by
  intro column hcolumn
  obtain ⟨hne, r', hr', hmem⟩ := mem_touchedColumns.mp hcolumn
  rw [List.mem_singleton.mp hr'] at hmem
  exact mem_touchedColumns.mpr ⟨hne, r, hr, hmem⟩

theorem Plan.IsFinite.single (h : (planOf target lookup rows).IsFinite) (hr : r ∈ rows) :
    (planOf target lookup [r]).IsFinite := by
  intro b hb w hw
  obtain ⟨column, hcolumn, rfl⟩ := List.mem_map.mp hb
  have hbranches : plannedBranches lookup column [r] ⊆ plannedBranches lookup column rows :=
    List.map_subset _ (List.filterMap_subset _ (by simpa using hr))
  exact h _ (List.mem_map_of_mem (touchedColumns_subset hr hcolumn)) w (hbranches hw)

theorem stampedRows_cons_eq_ok {i : Input} {inputs : List Input}
    (h : stampedRows target now (i :: inputs) = .ok rows) :
    ∃ r rest, stampedRows target now [i] = .ok [r] ∧ stampedRows target now inputs = .ok rest ∧
      rows = r :: rest := by
  obtain ⟨inputRows, hrows, hstamped⟩ := bind_eq_ok.mp h
  rw [mapM_eq_ok] at hrows hstamped
  cases hrows with
  | cons hrow hrows =>
    cases hstamped with
    | cons hr hrest =>
      have hsingle := bind_eq_ok.mpr
        ⟨_, mapM_eq_ok.mpr (.cons hrow .nil), mapM_eq_ok.mpr (.cons hr .nil)⟩
      have hinputs := bind_eq_ok.mpr ⟨_, mapM_eq_ok.mpr hrows, mapM_eq_ok.mpr hrest⟩
      exact ⟨_, _, hsingle, hinputs, rfl⟩

/-- One input alone does to a table what its row asks for. -/
theorem executeAlone_eq {st : Statement} {i : Input} (hdialect : target.dialect = .sqlite)
    (hraw : options.raw = false) (hnul : '\x00' ∉ st.sql.toList)
    (hr : stampedRows target now [i] = .ok [r]) (halone : CompilesAlone target now options st i r)
    (hserves : Serves db t target.qualifiedTable (lookupColumn target options)
      (touchedColumns (lookupColumn target options) [r]))
    (hfinite : (planOf target (lookupColumn target options) [r]).IsFinite) :
    executeAlone arithmetic target now options db i =
      some (db.replace (tableAfterEach arithmetic (lookupColumn target options) [r] t)) := by
  rcases halone with ⟨hcolumns, hcompile⟩ | ⟨c, hcompile, hwithin⟩
  · have hwell := hserves.wellFormed.tables t hserves.mem
    rw [executeAlone, hcompile, tableAfterEach_of_onlyKeys hwell hserves.hasLookup hcolumns,
      hserves.wellFormed.replace_self hserves.mem]
  · obtain ⟨rows, hrows, -, hexecute⟩ :=
      Compiler.execute_eq_run (k := .new target now) hdialect hraw hcompile
    have hsingle : rows = [r] := Except.ok.inj (hrows.symm.trans hr)
    have hmem : '\x00' ∉ c.statement.sql.toList := fun hmem => hnul (hwithin.nul_mem hmem)
    rw [executeAlone, hcompile]
    dsimp only
    rw [(hexecute arithmetic db).1 hmem, hsingle,
      tableAfterEach_eq fun _ _ => cellAfterEach_single r]
    exact congrArg (Option.map Prod.fst) (hserves.run hfinite)

/-- Inputs one after another: each statement finds the table that those before it left, and it serves
as the first one did. -/
theorem executeEach_eq {st : Statement} {inputs : List Input} {columns : List String}
    (hdialect : target.dialect = .sqlite) (hraw : options.raw = false)
    (hnul : '\x00' ∉ st.sql.toList)
    (halone : ∀ i ∈ inputs, ∃ r, stampedRows target now [i] = .ok [r] ∧
      CompilesAlone target now options st i r)
    (hrows : stampedRows target now inputs = .ok rows)
    (hserves : Serves db t target.qualifiedTable (lookupColumn target options) columns)
    (hcolumns : ∀ r ∈ rows, touchedColumns (lookupColumn target options) [r] ⊆ columns)
    (hfinite : ∀ r ∈ rows, (planOf target (lookupColumn target options) [r]).IsFinite) :
    executeEach arithmetic target now options db inputs =
      some (db.replace (tableAfterEach arithmetic (lookupColumn target options) rows t)) := by
  have hwell := hserves.wellFormed.tables t hserves.mem
  induction inputs generalizing db t rows with
  | nil =>
    cases hrows
    rw [tableAfterEach_of_onlyKeys hwell hserves.hasLookup rfl,
      hserves.wellFormed.replace_self hserves.mem]
    rfl
  | cons i inputs ih =>
    obtain ⟨r, rest, hr, hrest, rfl⟩ := stampedRows_cons_eq_ok hrows
    obtain ⟨hfirst, halone⟩ := List.forall_mem_cons.mp halone
    obtain ⟨hcolumn, hcolumns⟩ := List.forall_mem_cons.mp hcolumns
    obtain ⟨hnumbers, hfinite⟩ := List.forall_mem_cons.mp hfinite
    obtain ⟨r', hr', hcompiles⟩ := hfirst
    have hsame : r' = r := (List.cons.inj (Except.ok.inj (hr'.symm.trans hr))).1
    rw [hsame] at hcompiles
    have hstep := executeAlone_eq arithmetic hdialect hraw hnul hr hcompiles
      (hserves.mono hcolumn) hnumbers
    have hserves' := hserves.replace arithmetic [r]
    have hlater := ih halone hrest hserves' hcolumns hfinite (wellFormed_tableAfterEach hwell)
    have hsplit : tableAfterEach arithmetic (lookupColumn target options) (r :: rest) t = _ :=
      tableAfterEach_append hwell hserves.hasLookup [r] rest
    have hreplace : (db.replace _).replace _ = db.replace
        (tableAfterEach arithmetic (lookupColumn target options) (r :: rest) t) :=
      Database.replace_replace (t := tableAfterEach arithmetic (lookupColumn target options) [r] t)
        rfl
    rw [← hreplace, hsplit, executeEach, List.foldlM_cons, hstep]
    exact hlater

/-- All inputs of a batch can be executed alone, and they do what their rows ask for in order. -/
theorem Compiler.executeEach_eq {k : Compiler} {inputs : List Input} {c : Compiled}
    (hdialect : k.target.dialect = .sqlite) (hraw : options.raw = false)
    (h : (k.compile options inputs).1 = .ok c) (hnul : '\x00' ∉ c.statement.sql.toList)
    (hrows : stampedRows k.target k.now inputs = .ok rows)
    (hserves : Serves db t k.target.qualifiedTable (lookupColumn k.target options)
      (touchedColumns (lookupColumn k.target options) rows))
    (hfinite : (planOf k.target (lookupColumn k.target options) rows).IsFinite) :
    executeEach arithmetic k.target k.now options db inputs =
      some (db.replace (tableAfterEach arithmetic (lookupColumn k.target options) rows t)) :=
  Batch.executeEach_eq arithmetic hdialect hraw hnul
    (fun _ hi => Compiler.compile_alone h hi) hrows hserves (fun _ hr => touchedColumns_subset hr)
    fun _ hr => hfinite.single hr

end Databases

/-- A batch against its inputs one by one. If the operands of all steps are numbers and the text has
no NUL character, every input alone can be executed or skipped, and in a row of the table with a key
all changes that the rows with this key give are made in their order, while the statement of the
batch makes the first change of each column only. Both come to the same where rows with the same key
repeat each other in the columns that they share. -/
theorem Compiler.execute_each {k : Compiler} {options : Options} {inputs : List Input}
    {c : Compiled} {db : Database} {t : Table} (arithmetic : Arithmetic)
    (hdialect : k.target.dialect = .sqlite) (hraw : options.raw = false)
    (h : (k.compile options inputs).1 = .ok c) (hnul : '\x00' ∉ c.statement.sql.toList)
    (hdb : Serves db t c.statement.table c.statement.lookup
      (c.statement.blocks.map Block.column)) :
    ∃ rows, stampedRows k.target k.now inputs = .ok rows ∧
      ((planOf k.target (lookupColumn k.target options) rows).IsFinite →
        executeEach arithmetic k.target k.now options db inputs =
          some (db.replace (tableAfterEach arithmetic (lookupColumn k.target options) rows t)) ∧
        (db.execute arithmetic c.statement.sql).map Prod.fst =
          some (db.replace (tableAfter arithmetic (lookupColumn k.target options) rows t)) ∧
        (Agree (lookupColumn k.target options) rows →
          executeEach arithmetic k.target k.now options db inputs =
            (db.execute arithmetic c.statement.sql).map Prod.fst)) := by
  obtain ⟨rows, hrows, hc, hexecute⟩ := Compiler.execute_eq_run hdialect hraw h
  have hserves := hdb.of_compiledColumns hc
  refine ⟨rows, hrows, fun hfinite => ?_⟩
  have heach := Compiler.executeEach_eq arithmetic hdialect hraw h hnul hrows hserves hfinite
  have hbatch : (db.execute arithmetic c.statement.sql).map Prod.fst =
      some (db.replace (tableAfter arithmetic (lookupColumn k.target options) rows t)) := by
    rw [(hexecute arithmetic db).1 hnul]
    exact congrArg (Option.map Prod.fst) (hserves.run hfinite)
  refine ⟨heach, hbatch, fun hagree => ?_⟩
  rw [heach, hbatch, tableAfterEach_eq fun _ _ => hagree.cellAfterEach_eq]

/-- Three inputs, of which the second has nothing but its key, and the third has the key of the first
as another scalar and repeats the column that they share. -/
theorem Compiler.execute_each_of_repeated :
    let k := Compiler.new ((Target.ofTable "t" "id").withDialect .sqlite)
      ⟨⟨2024, 1, 1⟩, ⟨0, 0, 0, 0⟩⟩
    let db : Database := ⟨[⟨"t", ["id", "n", "m"],
      [[some "1", some "5", none], [some "2", some "7", some "y"]]⟩]⟩
    let inputs : List Input :=
      [.row (.ofList [("id", .scalar (.int 1)), ("n", .step ⟨.add, .int 2⟩),
        ("m", .scalar (.text "x"))]), .row (.ofList [("id", .scalar (.int 2))]),
        .row (.ofList [("m", .scalar (.text "x")), ("id", .scalar (.bool true))])]
    let after : Database := ⟨[⟨"t", ["id", "n", "m"],
      [[some "1", some "7", some "x"], [some "2", some "7", some "y"]]⟩]⟩
    ∃ c, (k.compile .default inputs).1 = .ok c ∧
      executeEach .numeric k.target k.now .default db inputs = some after ∧
      (db.execute .numeric c.statement.sql).map Prod.fst = some after := by
  intro k db inputs after
  have h : (k.compile .default inputs).1 = .ok ⟨⟨"t", "id", .backtick, false,
      [⟨"n", [⟨"1", .step ⟨.add, .int 2⟩⟩]⟩, ⟨"m", [⟨"1", .literal "x"⟩, ⟨"1", .literal "x"⟩]⟩],
      ["1", "2", "1"]⟩, [.int 1, .int 2, .bool true]⟩ := rfl
  have hserves : Serves db ⟨"t", ["id", "n", "m"],
      [[some "1", some "5", none], [some "2", some "7", some "y"]]⟩ "t" "id" ["n", "m"] :=
    Serves.single (by decide) (by decide) (by decide) (by decide)
  obtain ⟨rows, hrows, heach⟩ := Compiler.execute_each .numeric rfl rfl h
    (by rw [Statement.toList_sql]; decide +kernel) hserves
  cases hrows
  obtain ⟨heach, -, hsame⟩ := heach (by decide +kernel)
  have hafter : executeEach .numeric k.target k.now .default db inputs = some after := by
    rw [heach]
    decide +kernel
  exact ⟨_, h, hafter, (hsame (by decide +kernel)).symm.trans hafter⟩

/-- Two inputs with the same key and different values: the batch keeps the first value, the inputs
one by one leave the second. -/
theorem Compiler.execute_each_of_other_value :
    let k := Compiler.new ((Target.ofTable "t" "id").withDialect .sqlite)
      ⟨⟨2024, 1, 1⟩, ⟨0, 0, 0, 0⟩⟩
    let db : Database := ⟨[⟨"t", ["id", "n"], [[some "1", some "0"]]⟩]⟩
    let inputs : List Input :=
      [.row (.ofList [("id", .scalar (.int 1)), ("n", .scalar (.text "a"))]),
        .row (.ofList [("id", .scalar (.int 1)), ("n", .scalar (.text "b"))])]
    ∃ c, (k.compile .default inputs).1 = .ok c ∧
      (db.execute .numeric c.statement.sql).map Prod.fst =
        some ⟨[⟨"t", ["id", "n"], [[some "1", some "a"]]⟩]⟩ ∧
      executeEach .numeric k.target k.now .default db inputs =
        some ⟨[⟨"t", ["id", "n"], [[some "1", some "b"]]⟩]⟩ := by
  intro k db inputs
  have h : (k.compile .default inputs).1 = .ok ⟨⟨"t", "id", .backtick, false,
      [⟨"n", [⟨"1", .literal "a"⟩, ⟨"1", .literal "b"⟩]⟩], ["1", "1"]⟩, [.int 1, .int 1]⟩ := rfl
  have hserves : Serves db ⟨"t", ["id", "n"], [[some "1", some "0"]]⟩ "t" "id" ["n"] :=
    Serves.single (by decide) (by decide) (by decide) (by decide)
  have hnul : '\x00' ∉ (Statement.mk "t" "id" .backtick false
      [⟨"n", [⟨"1", .literal "a"⟩, ⟨"1", .literal "b"⟩]⟩] ["1", "1"]).sql.toList := by
    rw [Statement.toList_sql]
    decide +kernel
  obtain ⟨rows, hrows, -, hexecute⟩ := Compiler.execute_eq_run rfl rfl h
  have hrun := (hexecute .numeric db).1 hnul
  cases hrows
  have heach := Compiler.executeEach_eq .numeric rfl rfl h hnul rfl hserves (by decide +kernel)
  refine ⟨_, h, ?_, ?_⟩
  · rw [hrun]
    decide +kernel
  · rw [heach]
    decide +kernel

end Batch

end CaseUpdate
