import CaseUpdate.Proofs.Batch.Gates
import CaseUpdate.Proofs.Entity.Metadata

namespace CaseUpdate

namespace Batch

open Calendar (Instant)

variable {target : Target} {now : Instant} {options : Options} {inputs : List Input}
  {column table : String}

theorem unknownColumn_not_mem_inputFaults (i : Input) : .unknownColumn column table ∉ i.faults := by
  have hjson (v : Json) : rowOfJson v ≠ .error (.unknownColumn column table) := by
    cases v <;> simp [rowOfJson]
  have hrow : i.toRow ≠ .error (.unknownColumn column table) := by
    cases i with
    | row r => simp [Input.toRow]
    | json v => exact hjson v
    | record r =>
      rw [Input.toRow, rowOfRecord]
      cases r.toJson with
      | ok v => exact hjson v
      | error reason => simp
  unfold Input.faults
  cases h : i.toRow with
  | ok r => simp
  | error e =>
    rw [h] at hrow
    simpa [eq_comm] using hrow

theorem unknownColumn_not_mem_changeFaults (c : Change) (other : String) :
    .unknownColumn column table ∉ changeFaults target other c := by
  unfold changeFaults
  split
  · simp only [List.mem_map, not_exists, not_and]
    intro reason _
    split_ifs <;> simp
  · split_ifs <;> simp
  · simp

theorem hasColumn_of_mem_columnFaults {m : String × Change}
    (h : .unknownColumn column table ∈ columnFaults target options m) :
    target.hasColumn column = false := by
  rw [columnFaults, List.mem_append] at h
  rcases h with h | h
  · split_ifs at h with hunknown
    · cases List.mem_singleton.mp h
      rw [Bool.and_eq_true, Bool.not_eq_true'] at hunknown
      exact hunknown.2
    · cases h
  · split_ifs at h
    · cases h
    · exact absurd h (unknownColumn_not_mem_changeFaults m.2 m.1)

theorem hasColumn_of_mem_rowFaults {r : Row} {index : Nat}
    (h : .unknownColumn column table ∈ rowFaults target now options r index) :
    target.hasColumn column = false := by
  rw [rowFaults, List.mem_append, List.mem_append] at h
  rcases h with (h | h) | h
  · split_ifs at h <;> simp at h
  · unfold stampFaults at h
    split at h
    · cases h
    · split_ifs at h <;> simp at h
  · obtain ⟨m, -, hm⟩ := List.mem_flatMap.mp h
    exact hasColumn_of_mem_columnFaults hm

/-- A column is reported as unknown only if the target does not know it. -/
theorem hasColumn_of_mem_faults
    (h : .unknownColumn column table ∈ faults target now options inputs) :
    target.hasColumn column = false := by
  simp only [faults, List.mem_append] at h
  rcases h with ((h | h) | h) | h
  · obtain ⟨i, -, hi⟩ := List.mem_flatMap.mp h
    exact absurd hi (unknownColumn_not_mem_inputFaults i)
  · simp only [admissionFaults, patternFaults, List.mem_append] at h
    rcases h with (h | h) | h
    · split_ifs at h <;> simp at h
    · split at h
      · cases h
      · split_ifs at h <;> simp at h
    · split_ifs at h <;> simp at h
  · obtain ⟨r, -, hr⟩ := List.mem_flatMap.mp h
    exact hasColumn_of_mem_rowFaults hr
  · split_ifs at h <;> simp at h

/-- A batch compiles in strict mode only if the target knows the lookup column. -/
theorem hasColumn_lookup (hstrict : options.strict = true)
    (h : faults target now options inputs = []) :
    target.hasColumn (lookupColumn target options) = true := by
  have hinputs : inputs.flatMap Input.faults = [] := by
    simp only [faults, List.append_eq_nil_iff] at h
    exact h.1.1.1
  obtain ⟨rows, hrows⟩ := (Reports.mapM Input.reports_toRow inputs).ok_iff.mpr hinputs
  rw [faults_of_rows hrows, List.append_eq_nil_iff, List.append_eq_nil_iff,
    List.flatMap_eq_nil_iff] at h
  obtain ⟨hadmission, hall, -⟩ := h
  cases rows with
  | nil => cases hadmission
  | cons r rest =>
    obtain ⟨hkey, r', hr', hcolumns⟩ := (rowFaults_eq_nil_iff r 0).mp (hall (r, 0) (by simp))
    obtain ⟨c, hc, hnull⟩ := isStamped_iff.mp (isStamped_of_keyIn hkey)
    have hfault := hcolumns _ (Ordered.mem_of_get? (get?_stamped hc hnull hr'))
    rw [columnFaults, List.append_eq_nil_iff, hstrict] at hfault
    simpa using hfault.1

end Batch

namespace Entity

theorem subset_stampedColumns (names : List String) (stamp : Option String) :
    names ⊆ stampedColumns names stamp := by
  unfold stampedColumns
  split
  · split_ifs
    · exact List.Subset.refl names
    · exact List.subset_append_left names _
  · exact List.Subset.refl names

theorem mem_stampedColumns (names : List String) (column : String) :
    column ∈ stampedColumns names (some column) := by
  simp only [stampedColumns]
  split_ifs with hmem
  · exact hmem
  · simp

theorem stampedColumns_eq (names : List String) (stamp : Option String) :
    stampedColumns names stamp = names ++ (stamp.filter fun column => column ∉ names).toList := by
  unfold stampedColumns
  cases stamp with
  | none => simp
  | some column => by_cases h : column ∈ names <;> simp [h, Option.filter]

section Targets

variable (m : Declared) (dialect : Sql.Dialect) (tablePrefix : String)

theorem hasColumn_target (column : String) :
    ((m.toModel.target dialect).withPrefix tablePrefix).hasColumn column =
      m.columns.contains column := by
  unfold Model.target
  cases m.toModel.updatedAt <;> rfl

end Targets

/-- The primary key is a column iff a field is marked, or some column has the default name. -/
theorem Declaration.primaryKey_mem_columns (d : Declaration) :
    d.metadata.primaryKey ∈ d.metadata.columns ↔
      (∃ f ∈ d.fields, f.isKey) ∨ defaultPrimaryKey ∈ d.metadata.columns := by
  cases hkey : d.fields.find? FieldDecl.isKey with
  | none =>
    have hprimary : d.metadata.primaryKey = defaultPrimaryKey := by
      rw [metadata, hkey]
      rfl
    have hunmarked : ¬ ∃ f ∈ d.fields, f.isKey := by
      simpa [List.find?_eq_none] using hkey
    rw [hprimary, or_iff_right hunmarked]
  | some f =>
    have hf : f ∈ d.fields := List.mem_of_find?_eq_some hkey
    have hprimary : d.metadata.primaryKey = f.column := by
      rw [metadata, hkey]
      rfl
    rw [hprimary]
    refine iff_of_true ?_ (.inl ⟨f, hf, List.find?_some hkey⟩)
    exact subset_stampedColumns _ _ (List.mem_map_of_mem hf)

/-- The metadata of a declaration that has a model. Its columns are those of the fields in their order,
and behind them the stamped one if no field has it; the castable columns and the stamped one are among
them, and the primary key is iff a field is marked as it or a column has the default name. A batch
against the target of the model never reports one of these columns as unknown: not the stamped one, and
not the primary key if it is among them. In strict mode a batch compiles only if the lookup column is
among them; so none does by a primary key that is not. -/
theorem Declaration.metadata_is_consistent {d : Declaration} {m : Declared} (h : d.model = .ok m) :
    let names := d.fields.map FieldDecl.column
    m.columns = names ++ (m.updatedAt.filter fun column => column ∉ names).toList ∧
    m.castable ⊆ m.columns ∧ (∀ column, m.updatedAt = some column → column ∈ m.columns) ∧
    (m.primaryKey ∈ m.columns ↔
      (∃ f ∈ d.fields, f.isKey) ∨ defaultPrimaryKey ∈ m.columns) ∧
    ∀ (dialect : Sql.Dialect) (tablePrefix : String) (k : Batch.Compiler)
      (options : Batch.Options) (inputs : List Batch.Input),
      k.target = (m.toModel.target dialect).withPrefix tablePrefix →
      (∀ column table, (k.compile options inputs).1 = .error (.unknownColumn column table) →
        column ∉ m.columns ∧ m.updatedAt ≠ some column ∧
          (m.primaryKey ∈ m.columns → column ≠ m.primaryKey)) ∧
      (options.strict = true → (∃ c, (k.compile options inputs).1 = .ok c) →
        Batch.lookupColumn k.target options ∈ m.columns) := by
  obtain ⟨-, rfl⟩ := model_eq_ok_iff.mp h
  intro names
  have hsubset : names ⊆ d.metadata.columns := subset_stampedColumns names _
  have hstamp (column : String) (hcolumn : d.metadata.updatedAt = some column) :
      column ∈ d.metadata.columns := by
    change column ∈ stampedColumns names d.metadata.updatedAt
    rw [hcolumn]
    exact mem_stampedColumns names column
  refine ⟨stampedColumns_eq names _, ?_, hstamp, ?_, ?_⟩
  · intro column hcolumn
    obtain ⟨f, hf, rfl⟩ := List.mem_map.mp hcolumn
    exact hsubset (List.mem_map_of_mem (List.mem_filter.mp hf).1)
  · exact d.primaryKey_mem_columns
  · intro dialect tablePrefix k options inputs hk
    have hcompile := k.reports_compile options inputs
    rw [hk] at hcompile
    constructor
    · intro column table herror
      have hunknown : column ∉ d.metadata.columns := by
        have hfault := List.mem_of_head? (hcompile.error_iff _ |>.mp herror)
        have hcolumn := Batch.hasColumn_of_mem_faults hfault
        rwa [hasColumn_target, ← Bool.not_eq_true, List.contains_iff_mem] at hcolumn
      refine ⟨hunknown, fun hcolumn => hunknown (hstamp column hcolumn), ?_⟩
      rintro hkey rfl
      exact hunknown hkey
    · intro hstrict hok
      have hlookup := Batch.hasColumn_lookup hstrict (hcompile.ok_iff.mp hok)
      rwa [hasColumn_target, List.contains_iff_mem, ← hk] at hlookup

/-- A primary key that is marked on a field with another name, and stamps in a column that no field
has. In strict mode a row compiles by this key and gets its stamp, and the name of the field is
refused. -/
theorem Declaration.metadata_is_consistent_of_renamed :
    let d : Declaration := ⟨"Post", .record, [⟨"model", some [⟨"timestamps", none⟩]⟩],
      [⟨"uuid", [⟨"column", some [⟨"primary_key", none⟩, ⟨"name", some (.text "key")⟩]⟩]⟩,
        ⟨"tags", [⟨"column", some [⟨"json", none⟩]⟩]⟩]⟩
    let m : Declared :=
      ⟨"post", "key", ["key", "tags", "updated_at"], ["tags"], some "updated_at", none⟩
    let k := Batch.Compiler.new (m.toModel.target .generic) ⟨⟨2024, 1, 1⟩, ⟨0, 0, 0, 0⟩⟩
    d.model = .ok m ∧ m.primaryKey ∈ m.columns ∧ "uuid" ∉ m.columns ∧
    (k.compile ⟨none, false, true⟩ [.row (.ofList [("key", .scalar (.int 1)),
      ("uuid", .scalar (.int 2))])]).1 = .error (.unknownColumn "uuid" "post") ∧
    (∃ c, (k.compile ⟨none, false, true⟩ [.row (.ofList [("key", .scalar (.int 1)),
      ("tags", .scalar (.text "[]"))])]).1 = .ok c) ∧
    Batch.lookupColumn k.target ⟨none, false, true⟩ ∈ m.columns := by
  intro d m k
  have hmodel : d.model = .ok m := by decide +kernel
  obtain ⟨-, -, -, hkey, hbatches⟩ := metadata_is_consistent hmodel
  have hrefused : (k.compile ⟨none, false, true⟩ [.row (.ofList [("key", .scalar (.int 1)),
      ("uuid", .scalar (.int 2))])]).1 = .error (.unknownColumn "uuid" "post") :=
    ((k.reports_compile _ _).error_iff _).mpr (by decide)
  have hok : ∃ c, (k.compile ⟨none, false, true⟩ [.row (.ofList [("key", .scalar (.int 1)),
      ("tags", .scalar (.text "[]"))])]).1 = .ok c :=
    (k.reports_compile _ _).ok_iff.mpr (by decide)
  refine ⟨hmodel, hkey.mpr (.inl ⟨_, List.mem_cons_self, by decide⟩), ?_, hrefused, hok, ?_⟩
  · exact ((hbatches .generic "" k _ _ rfl).1 "uuid" "post" hrefused).1
  · exact (hbatches .generic "" k _ _ rfl).2 rfl hok

/-- Where no field is marked and none has the default name, the primary key is no column, and in strict
mode a row that brings it is refused for it. -/
theorem Declaration.key_without_column :
    let d : Declaration := ⟨"Note", .record, [], [⟨"body", []⟩]⟩
    let m : Declared := ⟨"note", "id", ["body"], [], none, none⟩
    let k := Batch.Compiler.new (m.toModel.target .generic) ⟨⟨2024, 1, 1⟩, ⟨0, 0, 0, 0⟩⟩
    d.model = .ok m ∧ m.primaryKey ∉ m.columns ∧
    (k.compile ⟨none, false, true⟩ [.row (.ofList [("id", .scalar (.int 1)),
      ("body", .scalar (.text "x"))])]).1 = .error (.unknownColumn "id" "note") := by
  exact ⟨by decide +kernel, by decide, rfl⟩

end Entity

end CaseUpdate
