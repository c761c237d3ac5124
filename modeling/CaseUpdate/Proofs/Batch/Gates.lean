import CaseUpdate.Proofs.Batch.Faults

namespace CaseUpdate

/-- A target with these castable columns and no others. -/
def Target.castingOnly (t : Target) (columns : List String) : Target := { t with castable := columns }

namespace Batch

open Calendar (Instant)

def Options.strictly (o : Options) (strict : Bool) : Options := { o with strict := strict }

/-- What a compiler answers with its gates set: whether it is strict, and which columns are
castable. -/
def Compiler.gated (k : Compiler) (options : Options) (inputs : List Input) (strict : Bool)
    (castable : List String) : Except Error Compiled :=
  (Compiler.compile { k with target := k.target.castingOnly castable } (options.strictly strict)
    inputs).1

/-- Whether columns are all that a row has, and the stamped one if the row gets a stamp. -/
structure Covers (target : Target) (columns : List String) (r : Row) : Prop where
  own : ∀ column ∈ r.columns, column ∈ columns
  stamp : ∀ s, target.stamp = some s → isStamped s.column r = false → s.column ∈ columns

/-- Whether the columns of a target are known, and cover all rows. -/
def KnowsAll (target : Target) (rows : List Row) : Prop :=
  ∃ columns, target.knownColumns = some columns ∧ ∀ r ∈ rows, Covers target columns r

/-- Whether a row has no object in the columns, unless in the lookup column. -/
def FreeOfObjects (lookup : String) (columns : List String) (r : Row) : Prop :=
  ∀ column ∈ columns, column ≠ lookup → ∀ members, r.get? column ≠ some (.document (.object members))

section Stamps

variable {target : Target} {now : Instant} {r r' : Row}

theorem mem_columns_set {column other text : String} :
    other ∈ (r.set column (.text text)).columns ↔ other ∈ r.columns ∨ other = column := by
  rw [Row.columns, Row.set, Row.insert, Ordered.keys_put]
  split_ifs with hmem
  · exact ⟨.inl, fun h => h.elim id fun he => he ▸ hmem⟩
  · simp [Row.columns]

/-- Columns cover a row iff they are all that it has with its stamp. -/
theorem covers_iff (h : stamped target now r = .ok r') (columns : List String) :
    Covers target columns r ↔ ∀ column ∈ r'.columns, column ∈ columns := by
  rcases stamped_cases h with ⟨rfl, hall⟩ | ⟨s, text, hs, hstamped, -, rfl⟩
  · constructor
    · exact fun hcovers => hcovers.own
    · intro hown
      refine ⟨hown, ?_⟩
      intro s hs hstamped
      rw [hall s hs] at hstamped
      cases hstamped
  · simp only [mem_columns_set]
    constructor
    · rintro hcovers column (hcolumn | rfl)
      · exact hcovers.own column hcolumn
      · exact hcovers.stamp s hs hstamped
    · intro hall
      refine ⟨fun column hcolumn => hall column (.inl hcolumn), ?_⟩
      intro s' hs' _
      cases hs.symm.trans hs'
      exact hall s.column (.inr rfl)

end Stamps

section Faults

variable {target : Target} {now : Instant} {options : Options}

theorem changeFaults_castingOnly_iff (columns : List String) (column : String) (c : Change) :
    changeFaults (target.castingOnly columns) column c = [] ↔
      changeFaults (target.castingOnly []) column c = [] ∧
        (column ∈ columns → ∀ members, c ≠ .document (.object members)) := by
  unfold changeFaults
  split
  · simp
  · simp [Target.castingOnly, Target.isCastable]
  · rename_i hobject
    simpa using fun _ => hobject

/-- A column of a row passes the gates iff it passes with the gates open, it is known in strict mode,
and it has no object where it is castable. -/
theorem columnFaults_gated_iff (strict : Bool) (columns : List String) (m : String × Change) :
    columnFaults (target.castingOnly columns) (options.strictly strict) m = [] ↔
      columnFaults (target.castingOnly []) (options.strictly false) m = [] ∧
        (strict = true → target.hasColumn m.1 = true) ∧
        (m.1 ∈ columns → m.1 ≠ lookupColumn target options →
          ∀ members, m.2 ≠ .document (.object members)) := by
  have hlookup : ∀ b columns, lookupColumn (target.castingOnly columns) (options.strictly b) =
      lookupColumn target options := fun _ _ => rfl
  have hknown : (target.castingOnly columns).hasColumn m.1 = target.hasColumn m.1 := rfl
  rw [columnFaults, columnFaults, hlookup, hlookup, hknown]
  by_cases hm : m.1 = lookupColumn target options
  · cases strict <;> simp [hm, Options.strictly]
  · rw [if_neg hm, if_neg hm, List.append_eq_nil_iff, changeFaults_castingOnly_iff]
    cases strict with
    | false => simp [hm, Options.strictly]
    | true =>
      simp only [Options.strictly, Bool.true_and, Bool.false_and, Bool.false_eq_true, if_false]
      simp [hm]
      tauto

theorem rowFaults_eq_nil_iff (r : Row) (index : Nat) :
    rowFaults target now options r index = [] ↔
      keyIn (lookupColumn target options) r ≠ .null ∧ ∃ r', stamped target now r = .ok r' ∧
        ∀ m ∈ r'.entries, columnFaults target options m = [] := by
  rw [rowFaults, List.append_eq_nil_iff, List.append_eq_nil_iff, ← (reports_stamped r).ok_iff,
    List.flatMap_eq_nil_iff, and_assoc]
  refine and_congr (by simp) ?_
  constructor
  · rintro ⟨⟨r', hr'⟩, hall⟩
    rw [← entries_stamped hr'] at hall
    exact ⟨r', hr', hall⟩
  · rintro ⟨r', hr', hall⟩
    rw [entries_stamped hr'] at hall
    exact ⟨⟨r', hr'⟩, hall⟩

theorem hasColumn_iff (column : String) :
    target.hasColumn column = true ↔ column ∈ target.knownColumns.getD [] := by
  unfold Target.hasColumn
  cases target.knownColumns <;> simp

/-- A row passes the gates iff it passes with the gates open, its columns are known in strict mode,
and it has no object in a castable column. -/
theorem rowFaults_gated_iff (strict : Bool) (columns : List String) (r : Row) (index : Nat) :
    rowFaults (target.castingOnly columns) now (options.strictly strict) r index = [] ↔
      rowFaults (target.castingOnly []) now (options.strictly false) r index = [] ∧
        (strict = true → Covers target (target.knownColumns.getD []) r) ∧
        FreeOfObjects (lookupColumn target options) columns r := by
  have hlookup : ∀ b columns, lookupColumn (target.castingOnly columns) (options.strictly b) =
      lookupColumn target options := fun _ _ => rfl
  have hstamped : ∀ columns, stamped (target.castingOnly columns) now r = stamped target now r :=
    fun _ => rfl
  rw [rowFaults_eq_nil_iff, rowFaults_eq_nil_iff, hlookup, hlookup, hstamped, hstamped, and_assoc]
  refine and_congr_right fun _ => ?_
  cases hr : stamped target now r with
  | error e => simp
  | ok r' =>
    have hcovers : Covers target (target.knownColumns.getD []) r ↔
        ∀ m ∈ r'.entries, target.hasColumn m.1 = true := by
      rw [covers_iff hr, Row.columns, Ordered.keys, List.forall_mem_map]
      simp only [hasColumn_iff]
    have hobject (column : String) (members : List (String × Json)) :=
      get?_stamped_iff hr column (c := .document (.object members)) (by simp)
    have hfree : FreeOfObjects (lookupColumn target options) columns r ↔
        ∀ m ∈ r'.entries, m.1 ∈ columns → m.1 ≠ lookupColumn target options →
          ∀ members, m.2 ≠ .document (.object members) := by
      simp only [FreeOfObjects, ne_eq, ← hobject]
      constructor
      · intro hall m hm hcolumn hne members hobject
        exact hall m.1 hcolumn hne members (hobject ▸ Ordered.get?_of_mem r'.nodup hm)
      · intro hall column hcolumn hne members hobject
        exact hall _ (Ordered.mem_of_get? hobject) hcolumn hne members rfl
    simp only [Except.ok.injEq, exists_eq_left', columnFaults_gated_iff strict columns, hcovers, hfree,
      forall_and]
    refine and_congr_right fun _ => and_congr_left fun _ => ?_
    exact ⟨fun h hstrict m hm => h m hm hstrict, fun h m hm hstrict => h hstrict m hm⟩

theorem forall_mem_zipIdx {α : Type} (l : List α) (P : α → Prop) :
    (∀ x ∈ l.zipIdx, P x.1) ↔ ∀ a ∈ l, P a := by
  rw [← List.forall_mem_map (f := Prod.fst), List.zipIdx_map_fst]

variable (target now options) in
/-- A batch passes the gates iff it passes with the gates open, in strict mode all columns of its rows
are known, and no row has an object in a castable column. -/
theorem faults_gated_iff {inputs : List Input} {rows : List Row}
    (hrows : inputs.mapM Input.toRow = .ok rows) (strict : Bool) (columns : List String) :
    faults (target.castingOnly columns) now (options.strictly strict) inputs = [] ↔
      faults (target.castingOnly []) now (options.strictly false) inputs = [] ∧
        (strict = true → KnowsAll target rows) ∧
        ∀ r ∈ rows, FreeOfObjects (lookupColumn target options) columns r := by
  have hlookup : ∀ b columns, lookupColumn (target.castingOnly columns) (options.strictly b) =
      lookupColumn target options := fun _ _ => rfl
  have honly : ∀ b columns, onlyKeys (target.castingOnly columns) now (options.strictly b) rows =
      onlyKeys target now options rows := fun _ _ => rfl
  have hadmission : admissionFaults (target.castingOnly columns) (options.strictly strict) rows = [] ↔
      admissionFaults (target.castingOnly []) (options.strictly false) rows = [] ∧
        (strict = true → target.knownColumns ≠ none) := by
    have hpattern : ∀ columns, patternFaults (target.castingOnly columns) = patternFaults target :=
      fun _ => rfl
    have hknown : ∀ columns, (target.castingOnly columns).knownColumns = target.knownColumns :=
      fun _ => rfl
    rw [admissionFaults, admissionFaults, hpattern, hpattern, hknown, hknown]
    cases strict <;> simp [Options.strictly, and_assoc]
  have heach : (∀ x ∈ rows.zipIdx,
      rowFaults (target.castingOnly columns) now (options.strictly strict) x.1 x.2 = []) ↔
      (∀ x ∈ rows.zipIdx,
        rowFaults (target.castingOnly []) now (options.strictly false) x.1 x.2 = []) ∧
      ∀ r ∈ rows, (strict = true → Covers target (target.knownColumns.getD []) r) ∧
        FreeOfObjects (lookupColumn target options) columns r := by
    rw [← forall_mem_zipIdx rows]
    simp only [rowFaults_gated_iff strict columns, forall_and]
  have hknows : KnowsAll target rows ↔ target.knownColumns ≠ none ∧
      ∀ r ∈ rows, Covers target (target.knownColumns.getD []) r := by
    unfold KnowsAll
    cases target.knownColumns <;> simp
  rw [faults_of_rows hrows, faults_of_rows hrows, hlookup, hlookup, honly, honly, hknows]
  simp only [List.append_eq_nil_iff, List.flatMap_eq_nil_iff, hadmission, heach]
  constructor
  · rintro ⟨⟨hopen, hlist⟩, ⟨hrow, hgates⟩, hsome⟩
    exact ⟨⟨hopen, hrow, hsome⟩, fun h => ⟨hlist h, fun r hr => (hgates r hr).1 h⟩,
      fun r hr => (hgates r hr).2⟩
  · rintro ⟨⟨hopen, hrow, hsome⟩, hstrict, hfree⟩
    exact ⟨⟨hopen, fun h => (hstrict h).1⟩, ⟨hrow, fun r hr => ⟨fun h => (hstrict h).2 r hr, hfree r hr⟩⟩,
      hsome⟩

end Faults

section Values

/-- What succeeds on each element succeeds on the list. -/
theorem mapM_eq_ok_of_imp {ε α β : Type} {f g : α → Except ε β} {l : List α} {m : List β}
    (hfg : ∀ a b, f a = .ok b → g a = .ok b) (h : l.mapM f = .ok m) : l.mapM g = .ok m :=
  mapM_eq_ok.mpr ((mapM_eq_ok.mp h).imp hfg)

variable {target : Target} {columns : List String}

/-- A change that is assigned in a castable column is assigned in any other. -/
theorem assigned_castingOnly {column : String} {c : Change} {a : Assigned}
    (h : assigned (target.castingOnly columns) column c = .ok a) :
    assigned (target.castingOnly []) column c = .ok a := by
  cases c with
  | scalar s => exact h
  | step s => exact h
  | document v =>
    cases v with
    | array items =>
      simp only [assigned] at h ⊢
      cases hitems : Step.ofItems items with
      | ok s =>
        rw [hitems] at h
        exact h
      | error reason =>
        rw [hitems] at h
        dsimp only at h
        split_ifs at h
    | object members =>
      simp only [assigned] at h ⊢
      split_ifs at h
      exact h
    | null => exact h
    | bool b => exact h
    | number n => exact h
    | text s => exact h

theorem compiledColumns_gated {options : Options} {strict : Bool} {rows : List Row} {c : Compiled}
    (h : compiledColumns (target.castingOnly columns) (options.strictly strict) rows = .ok c) :
    compiledColumns (target.castingOnly []) (options.strictly false) rows = .ok c := by
  have hbranch : ∀ column g b, branchOf (target.castingOnly columns) column g = .ok b →
      branchOf (target.castingOnly []) column g = .ok b := by
    intro column g b hb
    obtain ⟨value, hvalue, rfl⟩ := map_eq_ok.mp hb
    exact map_eq_ok.mpr ⟨value, assigned_castingOnly hvalue, rfl⟩
  have hblock : ∀ lookup column b, blockOf (target.castingOnly columns) lookup rows column = .ok b →
      blockOf (target.castingOnly []) lookup rows column = .ok b := by
    intro lookup column b hb
    obtain ⟨branches, hbranches, rfl⟩ := map_eq_ok.mp hb
    exact map_eq_ok.mpr ⟨branches, mapM_eq_ok_of_imp (hbranch column) hbranches, rfl⟩
  obtain ⟨blocks, hblocks, h⟩ := bind_eq_ok.mp h
  exact bind_eq_ok.mpr ⟨blocks, mapM_eq_ok_of_imp (hblock _) hblocks, h⟩

end Values

section Gates

variable {k : Compiler} {options : Options} {inputs : List Input} {rows : List Row}

theorem Compiler.stampedRows_of_gated {strict : Bool} {columns : List String} {c : Compiled}
    (h : k.gated options inputs strict columns = .ok c) :
    ∃ rows, stampedRows k.target k.now inputs = .ok rows ∧
      compiledColumns (k.target.castingOnly []) (options.strictly false) rows = .ok c := by
  obtain ⟨rows, hrows, -, -, hc⟩ := Compiler.compile_eq_ok h
  exact ⟨rows, hrows, compiledColumns_gated hc⟩

/-- The gates do not change a statement. -/
theorem Compiler.gated_unique {strict strict' : Bool} {columns columns' : List String}
    {c c' : Compiled} (h : k.gated options inputs strict columns = .ok c)
    (h' : k.gated options inputs strict' columns' = .ok c') : c = c' := by
  obtain ⟨rows, hrows, hc⟩ := Compiler.stampedRows_of_gated h
  obtain ⟨rows', hrows', hc'⟩ := Compiler.stampedRows_of_gated h'
  cases hrows.symm.trans hrows'
  exact Except.ok.inj (hc.symm.trans hc')

theorem Compiler.gated_ok_iff (k : Compiler) (options : Options) (inputs : List Input)
    (strict : Bool) (columns : List String) :
    (∃ c, k.gated options inputs strict columns = .ok c) ↔
      faults (k.target.castingOnly columns) k.now (options.strictly strict) inputs = [] := by
  rw [Compiler.gated]
  exact (Compiler.reports_compile _ _ inputs).ok_iff

/-- A batch compiles to a statement iff it does so with the gates open, and neither gate refuses it. -/
theorem Compiler.gated_eq_ok_iff (hrows : inputs.mapM Input.toRow = .ok rows) (strict : Bool)
    (columns : List String) (c : Compiled) :
    k.gated options inputs strict columns = .ok c ↔
      k.gated options inputs false [] = .ok c ∧ (strict = true → KnowsAll k.target rows) ∧
        ∀ r ∈ rows, FreeOfObjects (lookupColumn k.target options) columns r := by
  have hfaults := faults_gated_iff k.target k.now options hrows strict columns
  constructor
  · intro h
    obtain ⟨hopen, hgates⟩ := hfaults.mp ((k.gated_ok_iff options inputs strict columns).mp ⟨c, h⟩)
    obtain ⟨c', hc'⟩ := (k.gated_ok_iff options inputs false []).mpr hopen
    rw [Compiler.gated_unique h hc']
    exact ⟨hc', hgates⟩
  · rintro ⟨h, hgates⟩
    have hopen := (k.gated_ok_iff options inputs false []).mp ⟨c, h⟩
    obtain ⟨c', hc'⟩ :=
      (k.gated_ok_iff options inputs strict columns).mpr (hfaults.mpr ⟨hopen, hgates⟩)
    rw [Compiler.gated_unique h hc']
    exact hc'

/-- Opening a gate keeps a statement. -/
theorem Compiler.gated_of_opened {strict strict' : Bool} {columns columns' : List String}
    {c : Compiled} (hstrict : strict' = true → strict = true) (hcolumns : columns' ⊆ columns)
    (h : k.gated options inputs strict columns = .ok c) :
    k.gated options inputs strict' columns' = .ok c := by
  obtain ⟨rows', hstamped, -⟩ := Compiler.stampedRows_of_gated h
  obtain ⟨rows, hrows, -⟩ := bind_eq_ok.mp hstamped
  obtain ⟨hopen, hknows, hfree⟩ := (Compiler.gated_eq_ok_iff hrows strict columns c).mp h
  refine (Compiler.gated_eq_ok_iff hrows strict' columns' c).mpr ⟨hopen, hknows ∘ hstrict, ?_⟩
  intro r hr column hcolumn
  exact hfree r hr column (hcolumns hcolumn)

/-- A batch that compiles, when the gates are set anew, to no statement or to the same. -/
theorem Compiler.gated_fails_iff {strict : Bool} {columns : List String} {c : Compiled}
    (h : k.gated options inputs strict columns = .ok c) (strict' : Bool) (columns' : List String) :
    (∃ e, k.gated options inputs strict' columns' = .error e) ↔
      k.gated options inputs strict' columns' ≠ .ok c := by
  cases h' : k.gated options inputs strict' columns' with
  | error e => simp
  | ok c' => simp [Compiler.gated_unique h' h]

/-- Closing a gate keeps a failure. -/
theorem Compiler.gated_fails_of_closed {strict strict' : Bool} {columns columns' : List String}
    {e : Error} (hstrict : strict' = true → strict = true) (hcolumns : columns' ⊆ columns)
    (h : k.gated options inputs strict' columns' = .error e) :
    ∃ e', k.gated options inputs strict columns = .error e' := by
  cases hc : k.gated options inputs strict columns with
  | error e' => exact ⟨e', rfl⟩
  | ok c =>
    rw [Compiler.gated_of_opened hstrict hcolumns hc] at h
    cases h

end Gates

/-- The gates of a compiler only refuse batches. What compiles in strict mode compiles to the same
statement without it; what compiles without it does so in strict mode iff the columns of the target
are known, and cover what the rows have and the stamps that they get, and fails otherwise. What
compiles with some castable columns compiles to the same statement with fewer; what compiles with none
does so with them iff no row has an object in one of them besides the lookup column, and fails
otherwise. So a batch that fails still fails when a gate is closed. -/
theorem Compiler.gates_only_refuse (k : Compiler) (options : Options) (inputs : List Input) :
    (k.compile options inputs).1 = k.gated options inputs options.strict k.target.castable ∧
    (∀ columns c, k.gated options inputs true columns = .ok c →
      k.gated options inputs false columns = .ok c) ∧
    (∀ rows columns c, inputs.mapM Input.toRow = .ok rows →
      k.gated options inputs false columns = .ok c →
        (k.gated options inputs true columns = .ok c ↔ KnowsAll k.target rows) ∧
        ((∃ e, k.gated options inputs true columns = .error e) ↔ ¬ KnowsAll k.target rows)) ∧
    (∀ strict columns columns' c, columns' ⊆ columns →
      k.gated options inputs strict columns = .ok c →
        k.gated options inputs strict columns' = .ok c) ∧
    (∀ rows strict columns c, inputs.mapM Input.toRow = .ok rows →
      k.gated options inputs strict [] = .ok c →
        (k.gated options inputs strict columns = .ok c ↔
          ∀ r ∈ rows, FreeOfObjects (lookupColumn k.target options) columns r) ∧
        ((∃ e, k.gated options inputs strict columns = .error e) ↔
          ¬ ∀ r ∈ rows, FreeOfObjects (lookupColumn k.target options) columns r)) ∧
    (∀ columns e, k.gated options inputs false columns = .error e →
      ∃ e', k.gated options inputs true columns = .error e') ∧
    ∀ strict columns columns' e, columns' ⊆ columns →
      k.gated options inputs strict columns' = .error e →
        ∃ e', k.gated options inputs strict columns = .error e' := by
  refine ⟨rfl, ?_, ?_, ?_, ?_, ?_, ?_⟩
  · intro columns c h
    exact Compiler.gated_of_opened (fun _ => rfl) (List.Subset.refl columns) h
  · intro rows columns c hrows h
    have hiff : k.gated options inputs true columns = .ok c ↔ KnowsAll k.target rows := by
      obtain ⟨hopen, -, hfree⟩ := (Compiler.gated_eq_ok_iff hrows false columns c).mp h
      rw [Compiler.gated_eq_ok_iff hrows true columns c]
      exact ⟨fun hall => hall.2.1 rfl, fun hknows => ⟨hopen, fun _ => hknows, hfree⟩⟩
    exact ⟨hiff, (Compiler.gated_fails_iff h true columns).trans (not_congr hiff)⟩
  · intro strict columns columns' c hsub h
    exact Compiler.gated_of_opened id hsub h
  · intro rows strict columns c hrows h
    have hiff : k.gated options inputs strict columns = .ok c ↔
        ∀ r ∈ rows, FreeOfObjects (lookupColumn k.target options) columns r := by
      obtain ⟨hopen, hknows, -⟩ := (Compiler.gated_eq_ok_iff hrows strict [] c).mp h
      rw [Compiler.gated_eq_ok_iff hrows strict columns c]
      exact ⟨fun hall => hall.2.2, fun hfree => ⟨hopen, hknows, hfree⟩⟩
    exact ⟨hiff, (Compiler.gated_fails_iff h strict columns).trans (not_congr hiff)⟩
  · intro columns e h
    exact Compiler.gated_fails_of_closed (fun _ => rfl) (List.Subset.refl columns) h
  · intro strict columns columns' e hsub h
    exact Compiler.gated_fails_of_closed id hsub h

/-- A row with a step in a list and an object, which gets a stamp. Its target knows the stamped column;
the list may stand in a castable column, and the object may not. -/
theorem Compiler.gates_only_refuse_of_object :
    let k := Compiler.new (((Target.ofTable "t" "id").withColumns ["id", "n", "at", "o"]).withStamp
      "at" "%Y") ⟨⟨2024, 1, 1⟩, ⟨0, 0, 0, 0⟩⟩
    let inputs : List Input := [.row (.ofList [("id", .scalar (.int 1)),
      ("n", .document (.array [.text "+", .number (.integer 2)])),
      ("o", .document (.object [("a", .null)]))])]
    ∃ c, k.gated .default inputs true [] = .ok c ∧ k.gated .default inputs false ["n", "id"] = .ok c ∧
      ∃ e, k.gated .default inputs false ["n", "o"] = .error e := by
  intro k inputs
  obtain ⟨c, hc⟩ := (k.gated_ok_iff .default inputs false []).mpr (by decide)
  obtain ⟨-, -, hstrict, -, hcastable, -⟩ := k.gates_only_refuse .default inputs
  refine ⟨c, (hstrict _ [] c rfl hc).1.mpr ?_, (hcastable _ false ["n", "id"] c rfl hc).1.mpr ?_,
    (hcastable _ false ["n", "o"] c rfl hc).2.mpr ?_⟩
  · refine ⟨["id", "n", "at", "o"], rfl, List.forall_mem_singleton.mpr ⟨?_, ?_⟩⟩
    · decide
    · rintro s hs -
      cases hs
      decide
  · refine List.forall_mem_singleton.mpr ?_
    intro column hcolumn hne members hobject
    rcases List.mem_pair.mp hcolumn with rfl | rfl
    · cases hobject
    · exact hne rfl
  · intro hall
    exact hall _ (List.mem_singleton_self _) "o" (by decide) (by decide) [("a", .null)] rfl

end Batch

end CaseUpdate
