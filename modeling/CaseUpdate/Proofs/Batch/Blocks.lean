import CaseUpdate.Proofs.Batch.Entries

namespace CaseUpdate.Batch

open Calendar (Instant)

/-- The rows of a batch with their stamps. -/
def stampedRows (target : Target) (now : Instant) (inputs : List Input) :
    Except Error (List Row) := do
  let rows ← inputs.mapM Input.toRow
  rows.mapM (stamped target now)

def keyIn (lookup : String) (r : Row) : Scalar :=
  match r.get? lookup with
  | some (.scalar s) => s
  | _ => .null

/-- The columns of rows besides the lookup column, in the order in which they first come. -/
def touchedColumns (lookup : String) (rows : List Row) : List String :=
  ((rows.flatMap Row.columns).filter (· ≠ lookup)).eraseDups

/-- What the rows that carry a column give for it, each with the key of its row. -/
def carried (lookup column : String) (rows : List Row) : List (Scalar × Change) :=
  rows.filterMap fun r => (r.get? column).map fun c => (keyIn lookup r, c)

def branchOf (target : Target) (column : String) (g : Scalar × Change) : Except Error Branch :=
  (assigned target column g.2).map fun value => ⟨keyLiteral target g.1, value⟩

def blockOf (target : Target) (lookup : String) (rows : List Row) (column : String) :
    Except Error Block :=
  ((carried lookup column rows).mapM (branchOf target column)).map fun branches =>
    ⟨column, branches⟩

/-- The statement of rows, made column by column. -/
def compiledColumns (target : Target) (options : Options) (rows : List Row) :
    Except Error Compiled := do
  let lookup := lookupColumn target options
  let blocks ← (touchedColumns lookup rows).mapM (blockOf target lookup rows)
  return {
    statement := {
      table := target.qualifiedTable
      lookup := lookup
      style := target.nameStyle
      raw := options.raw
      blocks := blocks
      keys := rows.map fun r => keyLiteral target (keyIn lookup r) }
    keys := rows.map (keyIn lookup) }

def HasKey (lookup : String) (r : Row) : Prop :=
  r.get? lookup = some (.scalar (keyIn lookup r)) ∧ keyIn lookup r ≠ .null

theorem keyOf_eq_ok {lookup : String} {index : Nat} {r : Row} {key : Scalar}
    (h : keyOf lookup index r = .ok key) : r.get? lookup = some (.scalar key) ∧ key ≠ .null := by
  unfold keyOf at h
  split at h
  · rename_i s hs
    split_ifs at h with hnull
    cases h
    exact ⟨hs, hnull⟩
  · cases h

section Stamps

variable {target : Target} {now : Instant} {r r' : Row}

/-- A row that is stamped either stays as it is, or gets a text where it has nothing or NULL. -/
theorem stamped_cases (h : stamped target now r = .ok r') :
    (r' = r ∧ ∀ s, target.stamp = some s → isStamped s.column r = true) ∨
      ∃ s text, target.stamp = some s ∧ isStamped s.column r = false ∧
        now.format s.pattern = some text ∧ r' = r.set s.column (.text text) := by
  unfold stamped at h
  split at h
  · rename_i hnone
    exact .inl ⟨(Except.ok.inj h).symm, by simp [hnone]⟩
  · rename_i s hs
    split_ifs at h with hstamped
    · exact .inl ⟨(Except.ok.inj h).symm, by simpa [hs] using hstamped⟩
    · split at h
      · rename_i text hformat
        exact .inr ⟨s, text, hs, by simpa using hstamped, hformat, (Except.ok.inj h).symm⟩
      · cases h

theorem isStamped_iff {column : String} :
    isStamped column r = true ↔ ∃ c, r.get? column = some c ∧ c ≠ .scalar .null := by
  unfold isStamped
  split
  · rename_i hget
    simp [hget]
  · rename_i s hget
    simp [hget]
  · rename_i c hscalar hget
    refine iff_of_true rfl ⟨c, hget, ?_⟩
    rintro rfl
    exact hscalar _ rfl

theorem isStamped_of_keyIn {column : String} (h : keyIn column r ≠ .null) :
    isStamped column r := by
  unfold keyIn at h
  unfold isStamped
  split at h
  · rename_i key hget
    rw [hget]
    simpa using h
  · exact absurd rfl h

/-- A stamp leaves what a row gives for a column alone, unless that is NULL: it goes to another
column, or the row is stamped already. -/
theorem get?_stamped {column : String} {c : Change} (hc : r.get? column = some c)
    (hnull : c ≠ .scalar .null) (h : stamped target now r = .ok r') : r'.get? column = some c := by
  rcases stamped_cases h with ⟨rfl, -⟩ | ⟨s, text, -, hstamped, -, rfl⟩
  · exact hc
  · have hne : s.column ≠ column := by
      rintro rfl
      rw [isStamped_iff.mpr ⟨c, hc, hnull⟩] at hstamped
      cases hstamped
    rw [Row.set, Row.get?_insert, if_neg hne]
    exact hc

/-- Stamps are texts, and they take the place of NULL only: a row keeps its other changes, and gets no
others but scalars. -/
theorem get?_stamped_iff (h : stamped target now r = .ok r') (column : String) {c : Change}
    (hscalar : ∀ s, c ≠ .scalar s) : r'.get? column = some c ↔ r.get? column = some c := by
  constructor
  · intro hc
    rcases stamped_cases h with ⟨rfl, -⟩ | ⟨s, text, -, -, -, rfl⟩
    · exact hc
    · rw [Row.set, Row.get?_insert] at hc
      split_ifs at hc
      · exact absurd (Option.some.inj hc).symm (hscalar _)
      · exact hc
  · intro hc
    exact get?_stamped hc (hscalar .null) h

end Stamps

def Assigns (target : Target) (m : String × Change) (v : String × Assigned) : Prop :=
  m.1 = v.1 ∧ assigned target m.1 m.2 = .ok v.2

structure IsEntry (target : Target) (lookup : String) (r : Row) (e : Entry) : Prop where
  hasKey : HasKey lookup r
  key : e.key = keyIn lookup r
  literal : e.literal = keyLiteral target e.key
  values : List.Forall₂ (Assigns target) (r.entries.filter fun m => m.1 ≠ lookup) e.values

section Entries

variable {target : Target} {now : Instant} {known : Option (List String)} {lookup : String}

theorem contribution_eq_ok {column : String} {c : Change} {value : Option Assigned}
    (h : contribution target known lookup column c = .ok value) :
    (column = lookup ∧ value = none) ∨
      (column ≠ lookup ∧ ∃ a, assigned target column c = .ok a ∧ value = some a) := by
  unfold contribution at h
  obtain ⟨-, -, h⟩ := bind_eq_ok.mp h
  split_ifs at h with hl
  · exact .inl ⟨hl, (pure_eq_ok.mp h).symm⟩
  · obtain ⟨a, ha, h⟩ := bind_eq_ok.mp h
    exact .inr ⟨hl, a, ha, (pure_eq_ok.mp h).symm⟩

theorem forall₂_assignments {changes : List (String × Change)} {values : List (String × Assigned)}
    (h : assignments target known lookup changes = .ok values) :
    List.Forall₂ (Assigns target) (changes.filter fun m => m.1 ≠ lookup) values := by
  induction changes generalizing values with
  | nil =>
    cases h
    exact .nil
  | cons m rest ih =>
    obtain ⟨column, c⟩ := m
    rw [assignments] at h
    obtain ⟨value, hc, h⟩ := bind_eq_ok.mp h
    obtain ⟨values', hr, h⟩ := bind_eq_ok.mp h
    cases h
    rcases contribution_eq_ok hc with ⟨hl, rfl⟩ | ⟨hl, a, ha, rfl⟩
    · rw [List.filter_cons_of_neg (by simpa using hl)]
      exact ih hr
    · rw [List.filter_cons_of_pos (by simpa using hl)]
      exact .cons ⟨rfl, ha⟩ (ih hr)

theorem isEntry_of_entryOf {index : Nat} {r : Row} {e : Entry}
    (h : entryOf target now known lookup index r = .ok e) :
    ∃ r', stamped target now r = .ok r' ∧ IsEntry target lookup r' e := by
  obtain ⟨key, hk, h⟩ := bind_eq_ok.mp h
  obtain ⟨r', hs, h⟩ := bind_eq_ok.mp h
  obtain ⟨values, ha, h⟩ := bind_eq_ok.mp h
  cases h
  obtain ⟨hkey, hnull⟩ := keyOf_eq_ok hk
  have hkey' := get?_stamped hkey (by simpa using hnull) hs
  have hin : keyIn lookup r' = key := by rw [keyIn, hkey']
  have hhas : HasKey lookup r' := by
    rw [HasKey, hin]
    exact ⟨hkey', hnull⟩
  exact ⟨r', hs, hhas, hin.symm, rfl, forall₂_assignments ha⟩

theorem forall₂_of_entriesOf {index : Nat} {rows : List Row} {entries : List Entry}
    (h : entriesOf target now known lookup index rows = .ok entries) :
    ∃ rows', rows.mapM (stamped target now) = .ok rows' ∧
      List.Forall₂ (IsEntry target lookup) rows' entries := by
  induction rows generalizing index entries with
  | nil =>
    cases h
    exact ⟨[], rfl, .nil⟩
  | cons r rest ih =>
    obtain ⟨e, he, h⟩ := bind_eq_ok.mp h
    obtain ⟨entries', hr, h⟩ := bind_eq_ok.mp h
    cases h
    obtain ⟨r', hr', hentry⟩ := isEntry_of_entryOf he
    obtain ⟨rest', hrest', hentries⟩ := ih hr
    refine ⟨r' :: rest', ?_, .cons hentry hentries⟩
    rw [List.mapM_cons, hr', hrest']
    rfl

end Entries

section Columns

variable {target : Target} {lookup : String} {r : Row} {e : Entry}

theorem IsEntry.columns (h : IsEntry target lookup r e) :
    e.filed.map Prod.fst = r.columns.filter (· ≠ lookup) := by
  have hv := h.values
  have hl : r.columns.filter (· ≠ lookup) =
      (r.entries.filter fun m => m.1 ≠ lookup).map Prod.fst := by
    rw [Row.columns, Ordered.keys, List.filter_map]
    rfl
  rw [hl, Entry.filed, List.map_map]
  generalize r.entries.filter (fun m => m.1 ≠ lookup) = changes at hv
  generalize e.values = values at hv
  induction hv with
  | nil => rfl
  | cons hmv _ ih =>
    rw [List.map_cons, List.map_cons, ih, hmv.1]
    rfl

theorem filter_key_eq {m : List (String × Change)} (h : (Ordered.keys m).Nodup) (column : String) :
    m.filter (fun e => e.1 = column) =
      ((Ordered.get? column m).map fun c => (column, c)).toList := by
  induction m with
  | nil => rfl
  | cons d rest ih =>
    obtain ⟨hd, hrest⟩ := List.nodup_cons.mp h
    by_cases hc : d.1 = column
    · have hnone : rest.filter (fun e => e.1 = column) = [] := by
        rw [List.filter_eq_nil_iff]
        intro e he hec
        apply hd
        rw [hc, ← of_decide_eq_true hec]
        exact List.mem_map_of_mem he
      rw [List.filter_cons_of_pos (by simpa using hc), hnone, Ordered.get?, if_pos hc]
      subst hc
      rfl
    · rw [List.filter_cons_of_neg (by simpa using hc), Ordered.get?, if_neg hc]
      exact ih hrest

/-- The branches that an entry files under a column are those that its row gives it. -/
theorem IsEntry.branches (h : IsEntry target lookup r e) {column : String}
    (hc : column ≠ lookup) :
    List.Forall₂ (fun g b => branchOf target column g = .ok b)
      (((r.get? column).map fun c => (keyIn lookup r, c)).toList) (branchesOf column e.filed) := by
  have hfilter : List.Forall₂ (Assigns target)
      ((r.entries.filter fun m => m.1 ≠ lookup).filter fun m => m.1 = column)
      (e.values.filter fun v => v.1 = column) := by
    apply List.rel_filter _ h.values
    intro m v hmv
    simp [hmv.1]
  have hrow : (r.entries.filter fun m => m.1 ≠ lookup).filter (fun m => m.1 = column) =
      ((r.get? column).map fun c => (column, c)).toList := by
    rw [List.filter_filter, Row.get?, ← filter_key_eq r.nodup]
    apply List.filter_congr
    intro m _
    by_cases hm : m.1 = column <;> simp [hm, hc]
  have hfiled : branchesOf column e.filed =
      (e.values.filter fun v => v.1 = column).map fun v => ⟨e.literal, v.2⟩ := by
    rw [branchesOf, Entry.filed, List.filter_map, List.map_map]
    rfl
  rw [hrow] at hfilter
  rw [hfiled, List.forall₂_map_right_iff, h.literal, h.key]
  cases hg : r.get? column with
  | none =>
    rw [hg] at hfilter
    rw [List.forall₂_nil_left_iff.mp hfilter]
    exact .nil
  | some c =>
    rw [hg] at hfilter
    obtain ⟨v, vs, hv, hvs, heq⟩ := List.forall₂_cons_left_iff.mp hfilter
    rw [heq, List.forall₂_nil_left_iff.mp hvs]
    exact .cons (map_eq_ok.mpr ⟨v.2, hv.2, rfl⟩) .nil

end Columns

section Rows

variable {target : Target} {lookup : String} {rows : List Row} {entries : List Entry}

theorem hasKey_of_forall₂ (h : List.Forall₂ (IsEntry target lookup) rows entries) :
    ∀ r ∈ rows, HasKey lookup r := by
  induction h with
  | nil => simp
  | cons hre _ ih =>
    intro r hr
    rcases List.mem_cons.mp hr with rfl | hr
    · exact hre.hasKey
    · exact ih r hr

theorem columnsOf_allFiled (h : List.Forall₂ (IsEntry target lookup) rows entries) :
    columnsOf (allFiled entries) = touchedColumns lookup rows := by
  have hmap : (allFiled entries).map Prod.fst =
      (rows.flatMap Row.columns).filter (· ≠ lookup) := by
    induction h with
    | nil => rfl
    | cons hre _ ih =>
      rw [allFiled, List.flatMap_cons, List.map_append, List.flatMap_cons, List.filter_append,
        hre.columns]
      exact congrArg _ ih
  rw [columnsOf, touchedColumns, hmap]

theorem forall₂_branchesOf (h : List.Forall₂ (IsEntry target lookup) rows entries)
    {column : String} (hc : column ≠ lookup) :
    List.Forall₂ (fun g b => branchOf target column g = .ok b)
      (carried lookup column rows) (branchesOf column (allFiled entries)) := by
  induction h with
  | nil => exact .nil
  | @cons r e rest entries hre _ ih =>
    have hsplit : carried lookup column (r :: rest) =
        ((r.get? column).map fun c => (keyIn lookup r, c)).toList ++
          carried lookup column rest := by
      rw [carried, List.filterMap_cons]
      cases r.get? column <;> rfl
    rw [hsplit, allFiled, List.flatMap_cons, branchesOf_append]
    exact List.rel_append (hre.branches hc) ih

theorem mem_touchedColumns {column : String} :
    column ∈ touchedColumns lookup rows ↔
      column ≠ lookup ∧ ∃ r ∈ rows, column ∈ r.columns := by
  rw [touchedColumns, List.mem_eraseDups, List.mem_filter, List.mem_flatMap, and_comm,
    decide_eq_true_iff]

theorem mem_carried {column : String} {g : Scalar × Change} :
    g ∈ carried lookup column rows ↔
      ∃ r ∈ rows, r.get? column = some g.2 ∧ keyIn lookup r = g.1 := by
  obtain ⟨key, c⟩ := g
  simp [carried, and_comm]

theorem get?_of_not_mem {column : String} (hc : column ≠ lookup)
    (h : column ∉ touchedColumns lookup rows) {r : Row} (hr : r ∈ rows) : r.get? column = none := by
  cases hg : r.get? column with
  | none => rfl
  | some c =>
    have hcolumn : column ∈ r.columns := Ordered.mem_keys_of_get? hg
    exact absurd (mem_touchedColumns.mpr ⟨hc, r, hr, hcolumn⟩) h

theorem mapM_blockOf (h : List.Forall₂ (IsEntry target lookup) rows entries) :
    (touchedColumns lookup rows).mapM (blockOf target lookup rows) =
      .ok (grouped (allFiled entries)) := by
  rw [mapM_eq_ok, grouped, columnsOf_allFiled h, List.forall₂_map_right_iff, List.forall₂_same]
  intro column hcolumn
  have hc := (mem_touchedColumns.mp hcolumn).1
  exact map_eq_ok.mpr ⟨_, mapM_eq_ok.mpr (forall₂_branchesOf h hc), rfl⟩

/-- The statement of entries is that of their rows, made column by column. -/
theorem compiledColumns_eq {options : Options}
    (h : List.Forall₂ (IsEntry target (lookupColumn target options)) rows entries) :
    compiledColumns target options rows = .ok (statementOf target options entries) := by
  have hkeys : entries.map Entry.key = rows.map (keyIn (lookupColumn target options)) := by
    induction h with
    | nil => rfl
    | cons hre _ ih => rw [List.map_cons, List.map_cons, hre.key, ih]
  have hliterals : entries.map Entry.literal = (entries.map Entry.key).map (keyLiteral target) := by
    clear hkeys
    induction h with
    | nil => rfl
    | cons hre _ ih => rw [List.map_cons, hre.literal, ih, List.map_cons, List.map_cons]
  rw [compiledColumns, mapM_blockOf h, ok_bind, statementOf, hliterals, hkeys, List.map_map]
  rfl

end Rows

/-- Whatever a compiler has compiled before, a batch compiles to the statement of its rows. All rows
have keys, and there is a column besides the lookup column. -/
theorem Compiler.compile_eq_ok {k : Compiler} {options : Options} {inputs : List Input}
    {c : Compiled} (h : (k.compile options inputs).1 = .ok c) :
    ∃ rows, stampedRows k.target k.now inputs = .ok rows ∧
      (∀ r ∈ rows, HasKey (lookupColumn k.target options) r) ∧
      touchedColumns (lookupColumn k.target options) rows ≠ [] ∧
      compiledColumns k.target options rows = .ok c := by
  rw [Compiler.compile_eq] at h
  obtain ⟨inputRows, hrows, h⟩ := bind_eq_ok.mp h
  obtain ⟨known, -, h⟩ := bind_eq_ok.mp h
  obtain ⟨entries, hentries, h⟩ := bind_eq_ok.mp h
  split_ifs at h with hnil
  cases h
  obtain ⟨rows, hstamped, hall⟩ := forall₂_of_entriesOf hentries
  have hcolumns : touchedColumns (lookupColumn k.target options) rows ≠ [] := by
    rw [← columnsOf_allFiled hall]
    intro hempty
    apply hnil
    rw [← grouped_isEmpty, grouped, hempty]
    rfl
  exact ⟨rows, bind_eq_ok.mpr ⟨inputRows, hrows, hstamped⟩, hasKey_of_forall₂ hall, hcolumns,
    compiledColumns_eq hall⟩

theorem length_stampedRows {target : Target} {now : Instant} {inputs : List Input}
    {rows : List Row} (h : stampedRows target now inputs = .ok rows) :
    rows.length = inputs.length := by
  obtain ⟨inputRows, hrows, hstamped⟩ := bind_eq_ok.mp h
  have h1 := (mapM_eq_ok.mp hrows).length_eq
  have h2 := (mapM_eq_ok.mp hstamped).length_eq
  omega

theorem compiledColumns_eq_ok {target : Target} {options : Options} {rows : List Row}
    {c : Compiled} (h : compiledColumns target options rows = .ok c) :
    c.keys = rows.map (keyIn (lookupColumn target options)) ∧
    c.statement.keys = c.keys.map (keyLiteral target) ∧
    c.statement.table = target.qualifiedTable ∧
    c.statement.lookup = lookupColumn target options ∧
    c.statement.style = target.nameStyle ∧ c.statement.raw = options.raw ∧
    List.Forall₂ (fun column b => blockOf target (lookupColumn target options) rows column = .ok b)
      (touchedColumns (lookupColumn target options) rows) c.statement.blocks := by
  obtain ⟨blocks, hblocks, h⟩ := bind_eq_ok.mp h
  cases h
  refine ⟨rfl, ?_, rfl, rfl, rfl, rfl, mapM_eq_ok.mp hblocks⟩
  rw [List.map_map]
  rfl

theorem blockOf_eq_ok {target : Target} {lookup column : String} {rows : List Row} {b : Block}
    (h : blockOf target lookup rows column = .ok b) :
    b.column = column ∧ List.Forall₂ (fun g branch => branchOf target column g = .ok branch)
      (carried lookup column rows) b.branches := by
  obtain ⟨branches, hbranches, rfl⟩ := map_eq_ok.mp h
  exact ⟨rfl, mapM_eq_ok.mp hbranches⟩

theorem forall₂_blockOf {target : Target} {lookup : String} {rows : List Row}
    {columns : List String} {blocks : List Block}
    (h : List.Forall₂ (fun column b => blockOf target lookup rows column = .ok b) columns blocks) :
    blocks.map Block.column = columns ∧
      ∀ b ∈ blocks, blockOf target lookup rows b.column = .ok b := by
  induction h with
  | nil => simp
  | cons hb _ ih =>
    have hcolumn := (blockOf_eq_ok hb).1
    refine ⟨?_, ?_⟩
    · rw [List.map_cons, hcolumn, ih.1]
    · intro b hmem
      rcases List.mem_cons.mp hmem with rfl | hmem
      · rwa [hcolumn]
      · exact ih.2 b hmem

end CaseUpdate.Batch
