import CaseUpdate.Proofs.Database.Rows

namespace CaseUpdate.Database

section Tables

variable {t : Table}

theorem Table.WellFormed.update (h : t.WellFormed) (arithmetic : Arithmetic) (u : Sql.Update) :
    (t.update arithmetic u).1.WellFormed := by
  refine ⟨h.names, ?_⟩
  intro new hnew
  obtain ⟨row, hrow, rfl⟩ := List.mem_map.mp hnew
  have hlen : row.length = t.columns.length := h.lengths row hrow
  split_ifs
  · rw [length_assignAll]
    exact hlen
  · exact hlen

theorem Table.WellFormed.addColumn (h : t.WellFormed) {column : String}
    (hc : nameKey column ∉ t.columns.map nameKey) :
    Table.WellFormed { t with
      columns := t.columns ++ [column]
      rows := t.rows.map fun row => row ++ [none] } := by
  constructor
  · rw [List.map_append, List.map_singleton, ← List.concat_eq_append]
    exact h.names.concat hc
  · intro new hnew
    obtain ⟨row, hrow, rfl⟩ := List.mem_map.mp hnew
    have hlen : row.length = t.columns.length := h.lengths row hrow
    simp [hlen]

end Tables

variable {db db' : Database} {name : String}

theorem mem_of_table? {t : Table} (h : db.table? name = some t) : t ∈ db.tables :=
  List.mem_of_find?_eq_some h

theorem WellFormed.replace (h : db.WellFormed) {t : Table} (ht : t.WellFormed) :
    (db.replace t).WellFormed := by
  constructor
  · have hnames : (db.replace t).tables.map (fun t => nameKey t.name) =
        db.tables.map fun t => nameKey t.name := by
      rw [Database.replace, List.map_map]
      apply List.map_congr_left
      intro old _
      by_cases hname : old.name = t.name <;> simp [hname]
    rw [hnames]
    exact h.names
  · intro new hnew
    obtain ⟨old, hold, rfl⟩ := List.mem_map.mp hnew
    split_ifs
    · exact ht
    · exact h.tables old hold

theorem WellFormed.createTable (h : db.WellFormed) {t : Table}
    (ht : ∀ row ∈ t.rows, row.length = t.columns.length)
    (hcreate : db.createTable t = some db') : db'.WellFormed := by
  unfold Database.createTable at hcreate
  split_ifs at hcreate with hnew
  cases hcreate
  obtain ⟨hname, -, hcolumns⟩ := hnew
  constructor
  · have hfresh : nameKey t.name ∉ db.tables.map fun old => nameKey old.name := by
      intro hmem
      obtain ⟨old, hold, heq⟩ := List.mem_map.mp hmem
      have hnone := List.find?_eq_none.mp (Option.isNone_iff_eq_none.mp hname) old hold
      exact hnone (decide_eq_true heq)
    rw [List.map_append, List.map_singleton, ← List.concat_eq_append]
    exact h.names.concat hfresh
  · intro old hold
    rcases List.mem_append.mp hold with hold | hold
    · exact h.tables old hold
    · rw [List.mem_singleton.mp hold]
      exact ⟨hcolumns, ht⟩

theorem WellFormed.dropTable (h : db.WellFormed) (hdrop : db.dropTable name = some db') :
    db'.WellFormed := by
  unfold Database.dropTable at hdrop
  split at hdrop
  · cases hdrop
    refine ⟨h.names.sublist (List.filter_sublist.map _), ?_⟩
    intro t ht
    exact h.tables t (List.mem_of_mem_filter ht)
  · cases hdrop

theorem WellFormed.addColumn (h : db.WellFormed) {column : String}
    (hadd : db.addColumn name column = some db') : db'.WellFormed := by
  unfold Database.addColumn at hadd
  split at hadd
  · rename_i t ht
    split_ifs at hadd with hc
    cases hadd
    exact h.replace ((h.tables t (mem_of_table? ht)).addColumn hc)
  · cases hadd

section Statements

variable {arithmetic : Arithmetic} {touched : Nat}

theorem WellFormed.run (h : db.WellFormed) {u : Sql.Update}
    (hrun : db.run arithmetic u = some (db', touched)) : db'.WellFormed := by
  unfold Database.run at hrun
  split at hrun
  · rename_i t ht
    dsimp only at hrun
    split_ifs at hrun
    cases hrun
    exact h.replace ((h.tables t (mem_of_table? ht)).update arithmetic _)
  · cases hrun

theorem WellFormed.execute (h : db.WellFormed) {sql : String}
    (hexecute : db.execute arithmetic sql = some (db', touched)) : db'.WellFormed := by
  obtain ⟨u, -, hrun⟩ := Option.bind_eq_some_iff.mp hexecute
  exact h.run hrun

end Statements

/-- The databases that come of the empty one when tables are created, changed and dropped and when
statements are executed. -/
inductive Reachable : Database → Prop
  | empty : Reachable ⟨[]⟩
  | createTable {db db' : Database} {t : Table} (h : Reachable db)
      (ht : ∀ row ∈ t.rows, row.length = t.columns.length)
      (hcreate : db.createTable t = some db') : Reachable db'
  | dropTable {db db' : Database} {name : String} (h : Reachable db)
      (hdrop : db.dropTable name = some db') : Reachable db'
  | addColumn {db db' : Database} {name column : String} (h : Reachable db)
      (hadd : db.addColumn name column = some db') : Reachable db'
  | execute {db db' : Database} {arithmetic : Arithmetic} {sql : String} {touched : Nat}
      (h : Reachable db) (hexecute : db.execute arithmetic sql = some (db', touched)) :
      Reachable db'

/-- What is promised of a database holds of every one that there is. -/
theorem Reachable.wellFormed (h : Reachable db) : db.WellFormed := by
  induction h with
  | empty => exact ⟨by simp, by simp⟩
  | createTable _ ht hcreate ih => exact ih.createTable ht hcreate
  | dropTable _ hdrop ih => exact ih.dropTable hdrop
  | addColumn _ hadd ih => exact ih.addColumn hadd
  | execute _ hexecute ih => exact ih.execute hexecute

end CaseUpdate.Database
