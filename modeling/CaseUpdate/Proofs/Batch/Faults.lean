import CaseUpdate.Proofs.Batch.Blocks

namespace CaseUpdate

section Reports

variable {ε α β : Type}

/-- A computation succeeds iff there are no faults, and fails with the first one otherwise. -/
def Reports (x : Except ε α) (faults : List ε) : Prop :=
  match x with
  | .ok _ => faults = []
  | .error e => faults.head? = some e

theorem Reports.bind {x : Except ε α} {f : α → Except ε β} {faults later : List ε}
    (hx : Reports x faults) (hf : ∀ a, x = .ok a → Reports (f a) later) :
    Reports (x >>= f) (faults ++ later) := by
  cases x with
  | error e =>
    have hhead : faults.head? = some e := hx
    change (faults ++ later).head? = some e
    rw [List.head?_append, hhead]
    rfl
  | ok a =>
    have hnil : faults = [] := hx
    rw [hnil, List.nil_append, ok_bind]
    exact hf a rfl

/-- What is done with a result adds no faults. -/
theorem Reports.bind_ok {x : Except ε α} {f : α → Except ε β} {faults : List ε}
    (hx : Reports x faults) (hf : ∀ a, Reports (f a) []) : Reports (x >>= f) faults := by
  have h := hx.bind fun a _ => hf a
  rwa [List.append_nil] at h

theorem Reports.error_iff {x : Except ε α} {faults : List ε} (h : Reports x faults) (e : ε) :
    x = .error e ↔ faults.head? = some e := by
  cases x with
  | ok a =>
    have hnil : faults = [] := h
    simp [hnil]
  | error e' =>
    have hhead : faults.head? = some e' := h
    rw [hhead, Except.error.injEq, Option.some_inj]

theorem Reports.ok_iff {x : Except ε α} {faults : List ε} (h : Reports x faults) :
    (∃ a, x = .ok a) ↔ faults = [] := by
  cases x with
  | ok a =>
    have hnil : faults = [] := h
    simp [hnil]
  | error e =>
    have hhead : faults.head? = some e := h
    have hne : faults ≠ [] := by
      rintro rfl
      cases hhead
    simp [hne]

/-- Elements are looked at in their order. -/
theorem Reports.mapM {f : α → Except ε β} {g : α → List ε} (h : ∀ a, Reports (f a) (g a))
    (l : List α) : Reports (l.mapM f) (l.flatMap g) := by
  induction l with
  | nil => rfl
  | cons a l ih =>
    rw [List.mapM_cons, List.flatMap_cons]
    exact (h a).bind fun _ _ => ih.bind_ok fun _ => rfl

end Reports

/-- What keeps a list of JSON values from being a step: there must be two, an operator and a
number. -/
def Step.faults (items : List Json) : List StepError :=
  if items.length ≠ 2 then [.arity items.length]
  else
    (if (items.head?.bind operatorOf?).isNone then [.operator] else []) ++
      if (items.getLast?.bind Operand.ofJson?).isNone then [.operand] else []

theorem Step.reports_ofItems (items : List Json) : Reports (ofItems items) (faults items) := by
  unfold ofItems
  split
  · rename_i operator operand
    have hfaults : faults [operator, operand] =
        (if (operatorOf? operator).isNone then [.operator] else []) ++
          if (Operand.ofJson? operand).isNone then [.operand] else [] := rfl
    rw [hfaults]
    cases operatorOf? operator with
    | none => rfl
    | some op => cases Operand.ofJson? operand <;> rfl
  · rename_i hpair
    have hlength : items.length ≠ 2 := by
      intro htwo
      obtain ⟨operator, operand, rfl⟩ := List.length_eq_two.mp htwo
      exact hpair operator operand rfl
    rw [faults, if_pos hlength]
    rfl

namespace Batch

open Calendar (Instant)

def Input.faults (i : Input) : List Error :=
  match i.toRow with
  | .ok _ => []
  | .error e => [e]

def Input.row? (i : Input) : Option Row := i.toRow.toOption

/-- Why a change cannot be assigned to a column: a list must be a step, and a castable column takes
nothing structured but steps. -/
def changeFaults (target : Target) (column : String) : Change → List Error
  | .document (.array items) => (Step.faults items).map fun reason =>
    if target.isCastable column then .castableValue column "array"
    else .invalidIncrement column reason
  | .document (.object _) =>
    if target.isCastable column then [.castableValue column "object"] else []
  | _ => []

/-- What is wrong with a column of a row. In strict mode it must be known, the lookup column too;
its value counts only where it is assigned. -/
def columnFaults (target : Target) (options : Options) (m : String × Change) : List Error :=
  (if options.strict && !target.hasColumn m.1 then [.unknownColumn m.1 target.table] else []) ++
    if m.1 = lookupColumn target options then [] else changeFaults target m.1 m.2

/-- Changes with a text for a column: in its place where there is one, behind the others if not. -/
def withText (column text : String) (changes : List (String × Change)) :
    List (String × Change) :=
  if column ∈ Ordered.keys changes then
    changes.map fun m => if m.1 = column then (column, .scalar (.text text)) else m
  else changes ++ [(column, .scalar (.text text))]

/-- The changes of a row with the time of the update, where it is called for and can be written. -/
def stampedChanges (target : Target) (now : Instant) (r : Row) : List (String × Change) :=
  match target.stamp with
  | none => r.entries
  | some s =>
    if isStamped s.column r then r.entries
    else match now.format s.pattern with
      | some text => withText s.column text r.entries
      | none => r.entries

def stampFaults (target : Target) (now : Instant) (r : Row) : List Error :=
  match target.stamp with
  | none => []
  | some s =>
    if !isStamped s.column r && (now.format s.pattern).isNone then [.invalidDateFormat s.pattern]
    else []

/-- What is wrong with a row, in the order in which it is looked at: its key, its stamp, and its
columns with the stamped one among them. -/
def rowFaults (target : Target) (now : Instant) (options : Options) (r : Row) (index : Nat) :
    List Error :=
  (if keyIn (lookupColumn target options) r = .null then
    [.missingLookupValue (lookupColumn target options) index] else []) ++
    stampFaults target now r ++ (stampedChanges target now r).flatMap (columnFaults target options)

def patternFaults (target : Target) : List Error :=
  match target.stamp with
  | none => []
  | some s => if (Calendar.readPattern s.pattern).isNone then [.invalidDateFormat s.pattern] else []

/-- What is wrong before any row is looked at. -/
def admissionFaults (target : Target) (options : Options) (rows : List Row) : List Error :=
  (if rows.isEmpty then [.emptyInput] else []) ++ patternFaults target ++
    if options.strict && target.knownColumns.isNone then [.columnsUnavailable target.table] else []

/-- Whether the rows have nothing besides their keys. -/
def onlyKeys (target : Target) (now : Instant) (options : Options) (rows : List Row) : Bool :=
  rows.all fun r => (stampedChanges target now r).all fun m => m.1 = lookupColumn target options

/-- All that is wrong with a batch, in the order of its importance: inputs that are no rows, what
concerns the whole batch, the rows one after another, and at last that there is nothing to update. -/
def faults (target : Target) (now : Instant) (options : Options) (inputs : List Input) :
    List Error :=
  let rows := inputs.filterMap Input.row?
  inputs.flatMap Input.faults ++ admissionFaults target options rows ++
    rows.zipIdx.flatMap (fun r => rowFaults target now options r.1 r.2) ++
    if onlyKeys target now options rows then [.nothingToUpdate (lookupColumn target options)]
    else []

/-- What a compiler knows of the columns: their list in strict mode, and nothing otherwise. -/
def Knows (target : Target) (options : Options) (known : Option (List String)) : Prop :=
  (options.strict = false ∧ known = none) ∨
    ∃ columns, options.strict = true ∧ target.knownColumns = some columns ∧ known = some columns

theorem Input.reports_toRow (i : Input) : Reports i.toRow i.faults := by
  unfold faults
  cases i.toRow <;> rfl

/-- The rows of inputs, all of which are rows. -/
theorem filterMap_row? {inputs : List Input} {rows : List Row}
    (h : inputs.mapM Input.toRow = .ok rows) : inputs.filterMap Input.row? = rows := by
  have hall := mapM_eq_ok.mp h
  clear h
  induction hall with
  | nil => rfl
  | @cons i r inputs rows hi _ ih =>
    have hrow : i.row? = some r := by rw [Input.row?, hi, Except.toOption]
    rw [List.filterMap_cons_some hrow, ih]

/-- The faults of inputs that are rows. -/
theorem faults_of_rows {target : Target} {now : Instant} {options : Options} {inputs : List Input}
    {rows : List Row} (hrows : inputs.mapM Input.toRow = .ok rows) :
    faults target now options inputs = admissionFaults target options rows ++
      (rows.zipIdx.flatMap (fun r => rowFaults target now options r.1 r.2) ++
        if onlyKeys target now options rows then [.nothingToUpdate (lookupColumn target options)]
        else []) := by
  have hinputs : inputs.flatMap Input.faults = [] :=
    (Reports.mapM Input.reports_toRow inputs).ok_iff.mp ⟨rows, hrows⟩
  rw [faults, filterMap_row? hrows, hinputs, List.nil_append, List.append_assoc]

section Admission

variable (target : Target) (options : Options)

theorem reports_checkPattern : Reports (checkPattern target) (patternFaults target) := by
  unfold checkPattern patternFaults
  cases target.stamp with
  | none => rfl
  | some s =>
    dsimp only
    cases Calendar.readPattern s.pattern <;> rfl

theorem reports_admitted : Reports (admitted target options)
    (if options.strict && target.knownColumns.isNone then [.columnsUnavailable target.table]
      else []) := by
  unfold admitted
  cases options.strict with
  | false => rfl
  | true => cases target.knownColumns <;> rfl

theorem reports_admission (rows : List Row) :
    Reports (admission target options rows) (admissionFaults target options rows) := by
  unfold admission admissionFaults
  by_cases hnil : rows.isEmpty
  · rw [if_pos hnil, if_pos hnil]
    rfl
  · rw [if_neg hnil, if_neg hnil, List.nil_append]
    exact (reports_checkPattern target).bind fun _ _ => reports_admitted target options

variable {target options}

theorem knows_of_admission {rows : List Row} {known : Option (List String)}
    (h : admission target options rows = .ok known) : Knows target options known := by
  unfold admission at h
  split_ifs at h
  obtain ⟨-, -, h⟩ := bind_eq_ok.mp h
  unfold admitted at h
  cases hstrict : options.strict with
  | false =>
    rw [hstrict] at h
    cases h
    exact .inl ⟨hstrict, rfl⟩
  | true =>
    rw [hstrict, if_pos rfl] at h
    cases hcolumns : target.knownColumns with
    | none =>
      rw [hcolumns] at h
      cases h
    | some columns =>
      rw [hcolumns] at h
      cases h
      exact .inr ⟨columns, hstrict, hcolumns, rfl⟩

end Admission

section Rows

variable {target : Target} {now : Instant} {options : Options} {known : Option (List String)}

theorem reports_assigned (column : String) (c : Change) :
    Reports (assigned target column c) (changeFaults target column c) := by
  cases c with
  | scalar s => rfl
  | step s => rfl
  | document v =>
    cases v with
    | array items =>
      have hsteps := Step.reports_ofItems items
      simp only [assigned, changeFaults]
      cases hitems : Step.ofItems items with
      | ok s =>
        rw [hitems] at hsteps
        have hnil : Step.faults items = [] := hsteps
        rw [hnil]
        rfl
      | error reason =>
        rw [hitems] at hsteps
        have hhead : (Step.faults items).head? = some reason := hsteps
        dsimp only
        split_ifs <;> change List.head? (List.map _ _) = _ <;> rw [List.head?_map, hhead] <;> rfl
    | object members =>
      simp only [assigned, changeFaults]
      split_ifs <;> rfl
    | null => rfl
    | bool b => rfl
    | number n => rfl
    | text s => rfl

theorem reports_checkColumn (hknown : Knows target options known) (column : String) :
    Reports (checkColumn target known column)
      (if options.strict && !target.hasColumn column then [.unknownColumn column target.table]
        else []) := by
  rcases hknown with ⟨hstrict, rfl⟩ | ⟨columns, hstrict, hcolumns, rfl⟩
  · rw [hstrict]
    rfl
  · unfold checkColumn Target.hasColumn
    rw [hstrict, hcolumns]
    by_cases hmem : column ∈ columns <;> simp [hmem, Reports]

theorem reports_contribution (hknown : Knows target options known)
    (m : String × Change) :
    Reports (contribution target known (lookupColumn target options) m.1 m.2)
      (columnFaults target options m) := by
  unfold contribution columnFaults
  apply (reports_checkColumn hknown m.1).bind
  intro _ _
  split_ifs
  · rfl
  · exact (reports_assigned m.1 m.2).bind_ok fun _ => rfl

theorem reports_assignments (hknown : Knows target options known)
    (changes : List (String × Change)) :
    Reports (assignments target known (lookupColumn target options) changes)
      (changes.flatMap (columnFaults target options)) := by
  induction changes with
  | nil => rfl
  | cons m rest ih =>
    obtain ⟨column, c⟩ := m
    rw [assignments, List.flatMap_cons]
    exact (reports_contribution hknown (column, c)).bind fun _ _ => ih.bind_ok fun _ => rfl

theorem reports_keyOf (lookup : String) (index : Nat) (r : Row) :
    Reports (keyOf lookup index r)
      (if keyIn lookup r = .null then [.missingLookupValue lookup index] else []) := by
  unfold keyOf keyIn
  cases r.get? lookup with
  | none => rfl
  | some c =>
    cases c with
    | scalar s =>
      dsimp only
      split_ifs <;> rfl
    | step s => rfl
    | document v => rfl

theorem reports_stamped (r : Row) : Reports (stamped target now r) (stampFaults target now r) := by
  unfold stamped stampFaults
  cases target.stamp with
  | none => rfl
  | some s =>
    dsimp only
    cases isStamped s.column r with
    | true => rfl
    | false => cases now.format s.pattern <;> rfl

theorem put_of_mem {column : String} {c : Change} {changes : List (String × Change)}
    (hn : (Ordered.keys changes).Nodup) (h : column ∈ Ordered.keys changes) :
    Ordered.put column c changes =
      changes.map fun m => if m.1 = column then (column, c) else m := by
  induction changes with
  | nil => cases h
  | cons m rest ih =>
    obtain ⟨hm, hrest⟩ := List.nodup_cons.mp hn
    by_cases hc : m.1 = column
    · have hid : rest.map (fun m => if m.1 = column then (column, c) else m) = rest := by
        apply map_eq_self
        intro m' hm'
        have hne : ¬ m'.1 = column := fun he => hm (hc.trans he.symm ▸ List.mem_map_of_mem hm')
        rw [if_neg hne]
      rw [Ordered.put, if_pos hc, List.map_cons, if_pos hc, hid]
    · have hmem : column ∈ Ordered.keys rest :=
        (List.mem_cons.mp h).resolve_left fun he => hc he.symm
      rw [Ordered.put, if_neg hc, List.map_cons, if_neg hc, ih hrest hmem]

theorem entries_set (r : Row) (column text : String) :
    (r.set column (.text text)).entries = withText column text r.entries := by
  unfold withText
  split_ifs with hmem
  · exact put_of_mem r.nodup hmem
  · exact Ordered.put_of_not_mem hmem

theorem entries_stamped {r r' : Row} (h : stamped target now r = .ok r') :
    r'.entries = stampedChanges target now r := by
  unfold stampedChanges
  rcases stamped_cases h with ⟨rfl, hall⟩ | ⟨s, text, hs, hstamped, hformat, rfl⟩
  · cases hs : target.stamp with
    | none => rfl
    | some s =>
      dsimp only
      rw [if_pos (hall s hs)]
  · rw [hs]
    dsimp only
    rw [hstamped, hformat]
    exact entries_set r s.column text

theorem reports_entryOf (hknown : Knows target options known)
    (r : Row) (index : Nat) :
    Reports (entryOf target now known (lookupColumn target options) index r)
      (rowFaults target now options r index) := by
  unfold entryOf rowFaults
  rw [List.append_assoc]
  refine (reports_keyOf _ index r).bind fun key _ => (reports_stamped r).bind fun r' hr' => ?_
  rw [← entries_stamped hr']
  exact (reports_assignments hknown r'.entries).bind_ok fun _ => rfl

theorem reports_entriesOf (hknown : Knows target options known)
    (index : Nat) (rows : List Row) :
    Reports (entriesOf target now known (lookupColumn target options) index rows)
      ((rows.zipIdx index).flatMap fun r => rowFaults target now options r.1 r.2) := by
  induction rows generalizing index with
  | nil => rfl
  | cons r rest ih =>
    rw [entriesOf, List.zipIdx_cons, List.flatMap_cons]
    exact (reports_entryOf hknown r index).bind fun _ _ =>
      (ih (index + 1)).bind_ok fun _ => rfl

theorem touchedColumns_eq_nil_iff {lookup : String} {rows : List Row} :
    touchedColumns lookup rows = [] ↔ ∀ r ∈ rows, ∀ m ∈ r.entries, m.1 = lookup := by
  rw [List.eq_nil_iff_forall_not_mem]
  constructor
  · intro h r hr m hm
    by_contra hne
    exact h m.1 (mem_touchedColumns.mpr ⟨hne, r, hr, List.mem_map_of_mem hm⟩)
  · intro h column hcolumn
    obtain ⟨hne, r, hr, hmem⟩ := mem_touchedColumns.mp hcolumn
    obtain ⟨m, hm, rfl⟩ := List.mem_map.mp hmem
    exact hne (h r hr m hm)

/-- No branch is filed iff the rows have nothing besides their keys. -/
theorem allFiled_eq_nil_iff {lookup : String} {rows : List Row} {entries : List Entry}
    (h : List.Forall₂ (IsEntry target lookup) rows entries) :
    allFiled entries = [] ↔ touchedColumns lookup rows = [] := by
  rw [← grouped_isEmpty, List.isEmpty_iff, grouped, List.map_eq_nil_iff, columnsOf_allFiled h]

variable (options) in
theorem onlyKeys_iff {rows rows' : List Row} (h : rows.mapM (stamped target now) = .ok rows') :
    onlyKeys target now options rows ↔ touchedColumns (lookupColumn target options) rows' = [] := by
  rw [touchedColumns_eq_nil_iff, onlyKeys]
  simp only [List.all_eq_true, decide_eq_true_iff]
  have hall := mapM_eq_ok.mp h
  clear h
  induction hall with
  | nil => simp
  | @cons r r' rows rows' hr _ ih =>
    rw [List.forall_mem_cons, List.forall_mem_cons, ← entries_stamped hr]
    exact and_congr_right fun _ => ih

end Rows

/-- Compiling reports the faults of a batch: it has a statement iff there are none. -/
theorem reports_compilePlainly (target : Target) (now : Instant) (options : Options)
    (inputs : List Input) :
    Reports (compilePlainly target now options inputs) (faults target now options inputs) := by
  have hinputs : Reports (inputs.mapM Input.toRow) (inputs.flatMap Input.faults) :=
    Reports.mapM Input.reports_toRow inputs
  unfold compilePlainly faults
  rw [List.append_assoc, List.append_assoc]
  refine hinputs.bind fun rows hrows => ?_
  rw [filterMap_row? hrows]
  have hadmission := reports_admission target options rows
  refine hadmission.bind fun known hknown => ?_
  have hentries : Reports (entriesOf target now known (lookupColumn target options) 0 rows) _ :=
    reports_entriesOf (knows_of_admission hknown) 0 rows
  refine hentries.bind fun entries hok => ?_
  obtain ⟨rows', hstamped, hall⟩ := forall₂_of_entriesOf hok
  have honly := (onlyKeys_iff options hstamped).trans (allFiled_eq_nil_iff hall).symm
  by_cases hfiled : allFiled entries = []
  · rw [if_pos hfiled, if_pos (honly.mpr hfiled)]
    rfl
  · rw [if_neg hfiled, if_neg (fun h => hfiled (honly.mp h))]
    rfl

/-- Whatever a compiler has compiled before, it reports the faults of the batch. -/
theorem Compiler.reports_compile (k : Compiler) (options : Options) (inputs : List Input) :
    Reports (k.compile options inputs).1 (faults k.target k.now options inputs) := by
  rw [Compiler.compile_eq]
  exact reports_compilePlainly k.target k.now options inputs

/-- When a batch does not compile, and with which error: with the first of its faults. Whatever the
compiler has compiled before, there is a statement iff nothing is wrong with the batch. -/
theorem Compiler.compile_fails_iff (k : Compiler) (options : Options) (inputs : List Input) :
    (∀ e, (k.compile options inputs).1 = .error e ↔
      (faults k.target k.now options inputs).head? = some e) ∧
    ((∃ c, (k.compile options inputs).1 = .ok c) ↔ faults k.target k.now options inputs = []) := by
  have h := k.reports_compile options inputs
  exact ⟨h.error_iff, h.ok_iff⟩

end Batch

end CaseUpdate
