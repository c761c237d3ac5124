import CaseUpdate.Proofs.Batch.Faults
import CaseUpdate.Proofs.Batch.Given
import CaseUpdate.Proofs.Batch.Plan

namespace CaseUpdate.Batch

open Calendar (Instant)

/-- Whether a JSON value may stand in a column for the scalar that it holds. The key of a row must be a
scalar itself; and where the time of the update is to be set, NULL calls for it and a JSON null does
not. -/
def Interchangeable (target : Target) (options : Options) (column : String) (s : Scalar) : Prop :=
  if column = lookupColumn target options then s = .null
  else s = .null → ∀ stamp, target.stamp = some stamp → stamp.column ≠ column

/-- Whether an input gives a JSON null for a column. A scalar NULL is none. -/
def Input.GivesNull (column : String) (i : Input) : Prop :=
  ∃ r, i.toRow = .ok r ∧ r.get? column = some (.document .null)

def Branch.nulled (b : Branch) : Branch := ⟨b.key, .null⟩

def Block.nulled (n : Nat) (b : Block) : Block := ⟨b.column, b.branches.modify n Branch.nulled⟩

/-- A statement with NULL in one branch of a column. -/
def Statement.nulled (st : Statement) (column : String) (n : Nat) : Statement :=
  { st with blocks := st.blocks.map fun b => if b.column = column then b.nulled n else b }

/-- Changes with another one for a column that they have. -/
def replaced (column : String) (c : Change) (changes : List (String × Change)) :
    List (String × Change) :=
  changes.map fun m => if m.1 = column then (column, c) else m

/-- Filed branches with NULL for a column. -/
def nulledFor (column : String) (filed : List (String × Branch)) : List (String × Branch) :=
  filed.map fun f => if f.1 = column then (f.1, f.2.nulled) else f

def Entry.nulled (column : String) (e : Entry) : Entry :=
  { e with values := e.values.map fun v => if v.1 = column then (v.1, .null) else v }

section Changes

variable {target : Target} {known : Option (List String)} {lookup column : String} {s : Scalar}
  {v : Json} {changes : List (String × Change)}

/-- A scalar is assigned alike in a JSON value and by itself. -/
theorem assigned_document (hv : Scalar.ofJson? v = some s) :
    assigned target column (.document v) = assigned target column (.scalar s) := by
  cases v with
  | array items => cases hv
  | object members => cases hv
  | _ =>
    cases hv
    rfl

theorem assignments_document (hv : Scalar.ofJson? v = some s)
    (h : ∀ m ∈ changes, m.1 = column → m.2 = .scalar s) :
    assignments target known lookup (replaced column (.document v) changes) =
      assignments target known lookup changes := by
  induction changes with
  | nil => rfl
  | cons m rest ih =>
    obtain ⟨hm, hrest⟩ := List.forall_mem_cons.mp h
    obtain ⟨other, c⟩ := m
    have hcontribution : contribution target known lookup column (.document v) =
        contribution target known lookup column (.scalar s) := by
      rw [contribution, contribution, assigned_document hv]
    have ih := ih hrest
    rw [replaced] at ih ⊢
    by_cases hother : other = column
    · subst hother
      have hc : c = .scalar s := hm rfl
      rw [List.map_cons, if_pos rfl, assignments, assignments, ih, hcontribution, hc]
    · rw [List.map_cons, if_neg hother, assignments, assignments, ih]

/-- A JSON null is assigned wherever anything else is. -/
theorem contribution_null {c : Change} {value : Option Assigned} (hne : column ≠ lookup)
    (h : contribution target known lookup column c = .ok value) :
    contribution target known lookup column (.document .null) = .ok (some .null) := by
  obtain ⟨u, hcheck, -⟩ := bind_eq_ok.mp h
  rw [contribution, hcheck, ok_bind, if_neg hne]
  rfl

theorem assignments_null {values : List (String × Assigned)} (hne : column ≠ lookup)
    (h : assignments target known lookup changes = .ok values) :
    assignments target known lookup (replaced column (.document .null) changes) =
      .ok (values.map fun v => if v.1 = column then (v.1, .null) else v) := by
  induction changes generalizing values with
  | nil =>
    cases h
    rfl
  | cons m rest ih =>
    obtain ⟨other, c⟩ := m
    obtain ⟨value, hc, h⟩ := bind_eq_ok.mp h
    obtain ⟨values', hr, h⟩ := bind_eq_ok.mp h
    cases h
    have ih := ih hr
    rw [replaced] at ih ⊢
    by_cases hother : other = column
    · subst hother
      rcases contribution_eq_ok hc with ⟨hl, -⟩ | ⟨-, a, -, rfl⟩
      · exact absurd hl hne
      · rw [List.map_cons, if_pos rfl, assignments, contribution_null hne hc, ih]
        simp [pure, Except.pure]
    · rw [List.map_cons, if_neg hother, assignments, hc, ih]
      cases value <;> simp [pure, Except.pure, hother]

end Changes

section Rows

variable {target : Target} {now : Instant} {known : Option (List String)} {options : Options}
  {lookup column : String} {index : Nat} {s : Scalar} {v : Json} {r : Row}

theorem entries_insert (h : column ∈ r.columns) (c : Change) :
    (r.insert column c).entries = replaced column c r.entries :=
  put_of_mem r.nodup h

theorem keyOf_of_null (h : keyIn lookup r = .null) :
    keyOf lookup index r = .error (.missingLookupValue lookup index) := by
  rw [(reports_keyOf lookup index r).error_iff, if_pos h]
  rfl

theorem keyOf_insert (hne : column ≠ lookup) (c : Change) :
    keyOf lookup index (r.insert column c) = keyOf lookup index r := by
  rw [keyOf, keyOf, Row.get?_insert, if_neg hne]

variable (now) in
/-- A change for a column leaves the stamp of a row alone, unless it decides whether there is one. -/
theorem stamped_insert {c : Change} (hmem : column ∈ r.columns)
    (h : ∀ stamp, target.stamp = some stamp → stamp.column = column →
      isStamped column r = true ∧ isStamped column (r.insert column c) = true) :
    stamped target now (r.insert column c) =
      (stamped target now r).map fun r' => r'.insert column c := by
  unfold stamped
  cases hstamp : target.stamp with
  | none => rfl
  | some stamp =>
    by_cases hcolumn : stamp.column = column
    · obtain ⟨hr, hr'⟩ := h stamp hstamp hcolumn
      dsimp only
      rw [hcolumn, if_pos hr, if_pos hr']
      rfl
    · have hstamped : isStamped stamp.column (r.insert column c) = isStamped stamp.column r := by
        rw [isStamped, isStamped, Row.get?_insert, if_neg (Ne.symm hcolumn)]
      dsimp only
      rw [hstamped]
      split_ifs
      · rfl
      · cases now.format stamp.pattern with
        | none => rfl
        | some text =>
          have hcomm : (r.insert column c).set stamp.column (.text text) =
              (r.set stamp.column (.text text)).insert column c := by
            simp only [Row.set, Row.insert, Row.mk.injEq]
            exact Ordered.put_comm (Ne.symm hcolumn) hmem _ _
          dsimp only
          rw [hcomm]
          rfl

variable (now known index) in
/-- A row contributes the same with a scalar in a JSON value, where that may stand for the scalar. -/
theorem entryOf_document (hget : r.get? column = some (.scalar s)) (hv : Scalar.ofJson? v = some s)
    (h : Interchangeable target options column s) :
    entryOf target now known (lookupColumn target options) index (r.insert column (.document v)) =
      entryOf target now known (lookupColumn target options) index r := by
  unfold Interchangeable at h
  split_ifs at h with hcolumn
  · -- A NULL key is missing, in a JSON value or not, before anything else is looked at.
    have hkey : keyIn (lookupColumn target options) r = .null := by
      rw [keyIn, ← hcolumn, hget, h]
    have hkey' : keyIn (lookupColumn target options) (r.insert column (.document v)) = .null := by
      rw [keyIn, Row.get?_insert, if_pos hcolumn]
    rw [entryOf, entryOf, keyOf_of_null hkey, keyOf_of_null hkey']
    rfl
  · -- In the stamped column the scalar is not NULL, so both rows bring a stamp of their own.
    have hstamped (stamp : Stamp) (hstamp : target.stamp = some stamp)
        (hc : stamp.column = column) : isStamped column r = true := by
      refine isStamped_iff.mpr ⟨_, hget, ?_⟩
      intro hnull
      exact h (Change.scalar.inj hnull) stamp hstamp hc
    have hinsert := stamped_insert now (Ordered.mem_keys_of_get? hget)
      fun stamp hstamp hc => ⟨hstamped stamp hstamp hc, isStamped_iff.mpr
        ⟨.document v, by rw [Row.get?_insert, if_pos rfl], by simp⟩⟩
    rw [entryOf, entryOf, keyOf_insert hcolumn, hinsert]
    cases keyOf (lookupColumn target options) index r with
    | error e => rfl
    | ok key =>
      cases hr : stamped target now r with
      | error e => rfl
      | ok r' =>
        have hget' : r'.get? column = some (.scalar s) := by
          rcases stamped_cases hr with ⟨rfl, -⟩ | ⟨stamp, text, hstamp, hfalse, -, rfl⟩
          · exact hget
          · have hne : stamp.column ≠ column := by
              intro hc
              rw [hc, hstamped stamp hstamp hc] at hfalse
              cases hfalse
            rw [Row.set, Row.get?_insert, if_neg hne]
            exact hget
        have hall : ∀ m ∈ r'.entries, m.1 = column → m.2 = .scalar s := by
          intro m hm hc
          have hm := Ordered.get?_of_mem r'.nodup hm
          rw [hc] at hm
          exact Option.some.inj (hm.symm.trans hget')
        change (do
          let values ← assignments target known _ (r'.insert column (.document v)).entries
          return (⟨key, keyLiteral target key, values⟩ : Entry)) = _
        rw [entries_insert (Ordered.mem_keys_of_get? hget'), assignments_document hv hall]
        rfl

/-- A row that would get a stamp for its NULL gets none for a JSON null. -/
theorem entryOf_null {stamp : Stamp} {e : Entry} (hstamp : target.stamp = some stamp)
    (hne : stamp.column ≠ lookup) (hget : r.get? stamp.column = some (.scalar .null))
    (h : entryOf target now known lookup index r = .ok e) :
    entryOf target now known lookup index (r.insert stamp.column (.document .null)) =
      .ok (e.nulled stamp.column) := by
  obtain ⟨key, hk, h⟩ := bind_eq_ok.mp h
  obtain ⟨r', hr, h⟩ := bind_eq_ok.mp h
  obtain ⟨values, ha, h⟩ := bind_eq_ok.mp h
  cases h
  have hstamped : stamped target now (r.insert stamp.column (.document .null)) =
      .ok (r.insert stamp.column (.document .null)) := by
    have his : isStamped stamp.column (r.insert stamp.column (.document .null)) = true := by
      rw [isStamped, Row.get?_insert, if_pos rfl]
    rw [stamped, hstamp]
    dsimp only
    rw [if_pos his]
  -- The row with its stamp has the same columns, and another change for one of them.
  have hentries : (r.insert stamp.column (.document .null)).entries =
      replaced stamp.column (.document .null) r'.entries := by
    rcases stamped_cases hr with ⟨rfl, hall⟩ | ⟨stamp', text, hstamp', -, -, rfl⟩
    · have his := hall stamp hstamp
      rw [isStamped, hget] at his
      cases his
    · cases hstamp.symm.trans hstamp'
      have hmem : stamp.column ∈ (r.set stamp.column (.text text)).columns := by
        apply Ordered.mem_keys_of_get?
        rw [← Row.get?, Row.set, Row.get?_insert, if_pos rfl]
      rw [← entries_insert hmem]
      exact (Ordered.put_put _ _ _ _).symm
  rw [entryOf, keyOf_insert hne, hk, ok_bind, hstamped, ok_bind, hentries, assignments_null hne ha]
  rfl

end Rows

section Filed

variable {target : Target} {column : String}

theorem columnsOf_nulledFor (before filed after : List (String × Branch)) :
    columnsOf (before ++ (nulledFor column filed ++ after)) =
      columnsOf (before ++ (filed ++ after)) := by
  have hfst : (nulledFor column filed).map Prod.fst = filed.map Prod.fst := by
    rw [nulledFor, List.map_map]
    apply List.map_congr_left
    intro f _
    by_cases hf : f.1 = column <;> simp [hf]
  simp only [columnsOf, List.map_append, hfst]

theorem branchesOf_nulledFor (other : String) (filed : List (String × Branch)) :
    branchesOf other (nulledFor column filed) =
      if other = column then (branchesOf other filed).map Branch.nulled
      else branchesOf other filed := by
  induction filed with
  | nil => simp [nulledFor, branchesOf]
  | cons f rest ih =>
    have hcons (f : String × Branch) (l : List (String × Branch)) :
        branchesOf other (f :: l) = branchesOf other [f] ++ branchesOf other l :=
      branchesOf_append other [f] l
    have hrest : nulledFor column (f :: rest) =
        (if f.1 = column then (f.1, f.2.nulled) else f) :: nulledFor column rest := rfl
    rw [hrest, hcons, hcons f, ih]
    by_cases hother : other = column
    · subst hother
      by_cases hf : f.1 = other <;> simp [branchesOf, hf]
    · by_cases hf : f.1 = column
      · simp [branchesOf, hf, hother, Ne.symm hother]
      · simp [hf, hother]

/-- Where a column has one branch among filed ones, NULL for it is NULL in one branch of its block. -/
theorem grouped_nulledFor (before after : List (String × Branch)) {filed : List (String × Branch)}
    (hone : (branchesOf column filed).length = 1) :
    grouped (before ++ (nulledFor column filed ++ after)) =
      (grouped (before ++ (filed ++ after))).map fun b =>
        if b.column = column then b.nulled (branchesOf column before).length else b := by
  rw [grouped, grouped, columnsOf_nulledFor, List.map_map]
  apply List.map_congr_left
  intro other _
  by_cases hother : other = column
  · subst hother
    obtain ⟨b, hb⟩ := List.length_eq_one_iff.mp hone
    simp only [Function.comp_apply, if_true, Block.nulled, branchesOf_append,
      branchesOf_nulledFor, hb, List.map_cons, List.map_nil, List.singleton_append,
      modify_length_append]
  · simp only [Function.comp_apply, if_neg hother, branchesOf_append, branchesOf_nulledFor]

theorem filed_nulled (e : Entry) : (e.nulled column).filed = nulledFor column e.filed := by
  rw [Entry.filed, Entry.nulled, Entry.filed, nulledFor, List.map_map, List.map_map]
  apply List.map_congr_left
  intro v _
  by_cases hv : v.1 = column <;> simp [hv, Branch.nulled]

theorem allFiled_append_cons (entries later : List Entry) (e : Entry) :
    allFiled (entries ++ e :: later) = allFiled entries ++ (e.filed ++ allFiled later) := by
  rw [allFiled, List.flatMap_append, List.flatMap_cons]
  rfl

variable {options : Options} {e : Entry} {entries later : List Entry}

theorem length_branchesOf_allFiled
    (h : ∀ e ∈ entries, (branchesOf column e.filed).length = 1) :
    (branchesOf column (allFiled entries)).length = entries.length := by
  induction entries with
  | nil => rfl
  | cons e rest ih =>
    obtain ⟨he, hrest⟩ := List.forall_mem_cons.mp h
    rw [allFiled, List.flatMap_cons, branchesOf_append, List.length_append, he, List.length_cons,
      Nat.add_comm]
    exact congrArg (· + 1) (ih hrest)

/-- Where each entry has a branch for a column, NULL in one of them is NULL in the branch of the
statement at its place. -/
theorem statementOf_nulled (hbefore : ∀ e ∈ entries, (branchesOf column e.filed).length = 1)
    (he : (branchesOf column e.filed).length = 1) :
    statementOf target options (entries ++ e.nulled column :: later) =
      ⟨(statementOf target options (entries ++ e :: later)).statement.nulled column entries.length,
        (statementOf target options (entries ++ e :: later)).keys⟩ := by
  have hblocks := grouped_nulledFor (allFiled entries) (allFiled later) he
  rw [length_branchesOf_allFiled hbefore] at hblocks
  have hkeys : (entries ++ e.nulled column :: later).map Entry.key =
      (entries ++ e :: later).map Entry.key := by simp [Entry.nulled]
  have hliterals : (entries ++ e.nulled column :: later).map Entry.literal =
      (entries ++ e :: later).map Entry.literal := by simp [Entry.nulled]
  rw [statementOf, statementOf, hkeys, hliterals, allFiled_append_cons, allFiled_append_cons,
    filed_nulled, hblocks]
  rfl

end Filed

section Batches

variable {target : Target} {now : Instant} {options : Options} {before after : List Input}
  {i : Input} {r : Row}

/-- A batch around one of its rows. -/
theorem compilePlainly_around (hr : i.toRow = .ok r) :
    compilePlainly target now options (before ++ i :: after) = do
      let rows ← before.mapM Input.toRow
      let later ← after.mapM Input.toRow
      checkPattern target
      let known ← admitted target options
      let entries ← entriesOf target now known (lookupColumn target options) 0 rows
      let e ← entryOf target now known (lookupColumn target options) rows.length r
      let rest ← entriesOf target now known (lookupColumn target options) (rows.length + 1) later
      if allFiled (entries ++ e :: rest) = [] then
        .error (.nothingToUpdate (lookupColumn target options))
      else return statementOf target options (entries ++ e :: rest) := by
  simp [compilePlainly, hr, admission, entriesOf_append, entriesOf]

/-- A batch that compiles, with another row in the place of one. -/
theorem exists_around {c : Compiled} (hr : i.toRow = .ok r)
    (h : compilePlainly target now options (before ++ i :: after) = .ok c) :
    ∃ known rows entries e rest, rows.length = before.length ∧
      entriesOf target now known (lookupColumn target options) 0 rows = .ok entries ∧
      entryOf target now known (lookupColumn target options) before.length r = .ok e ∧
      allFiled (entries ++ e :: rest) ≠ [] ∧
      c = statementOf target options (entries ++ e :: rest) ∧
      ∀ i' r', i'.toRow = .ok r' → compilePlainly target now options (before ++ i' :: after) = do
        let e' ← entryOf target now known (lookupColumn target options) before.length r'
        if allFiled (entries ++ e' :: rest) = [] then
          .error (.nothingToUpdate (lookupColumn target options))
        else return statementOf target options (entries ++ e' :: rest) := by
  rw [compilePlainly_around hr] at h
  obtain ⟨rows, hrows, h⟩ := bind_eq_ok.mp h
  obtain ⟨later, hlater, h⟩ := bind_eq_ok.mp h
  obtain ⟨u, hpattern, h⟩ := bind_eq_ok.mp h
  obtain ⟨known, hknown, h⟩ := bind_eq_ok.mp h
  obtain ⟨entries, hentries, h⟩ := bind_eq_ok.mp h
  obtain ⟨e, he, h⟩ := bind_eq_ok.mp h
  obtain ⟨rest, hrest, h⟩ := bind_eq_ok.mp h
  split_ifs at h with hfiled
  cases h
  have hlength : rows.length = before.length := (mapM_eq_ok.mp hrows).length_eq.symm
  refine ⟨known, rows, entries, e, rest, hlength, hentries, hlength ▸ he, hfiled, rfl, ?_⟩
  intro i' r' hr'
  rw [compilePlainly_around hr', hrows, ok_bind, hlater, ok_bind, hpattern, ok_bind, hknown, ok_bind,
    hentries, ok_bind, hrest, ← hlength]
  rfl

end Batches

section Stamps

variable {target : Target} {now : Instant} {known : Option (List String)} {lookup column : String}
  {stamp : Stamp} {r r' : Row}

theorem isStamped_of_stamped (hstamp : target.stamp = some stamp)
    (h : stamped target now r = .ok r') : isStamped stamp.column r' = true := by
  rcases stamped_cases h with ⟨rfl, hall⟩ | ⟨stamp', text, hstamp', -, -, rfl⟩
  · exact hall stamp hstamp
  · cases hstamp.symm.trans hstamp'
    rw [isStamped, Row.set, Row.get?_insert, if_pos rfl]
    rfl

/-- Each row has a branch for the stamped column. -/
theorem length_branchesOf_stamp {e : Entry} (hstamp : target.stamp = some stamp)
    (hne : stamp.column ≠ lookup) (hr : stamped target now r = .ok r')
    (h : IsEntry target lookup r' e) : (branchesOf stamp.column e.filed).length = 1 := by
  obtain ⟨c, hc, -⟩ := isStamped_iff.mp (isStamped_of_stamped hstamp hr)
  have hlength := (h.branches hne).length_eq
  rw [hc] at hlength
  exact hlength.symm

theorem assignedScalar_eq_null_iff (style : Sql.LiteralStyle) (s : Scalar) :
    assignedScalar style s = .null ↔ s = .null := by
  rw [assignedScalar, ← style.escapeScalar_eq_none_iff]
  cases style.escapeScalar s <;> simp

theorem ofJson?_eq_null_iff {v : Json} : Scalar.ofJson? v = some .null ↔ v = .null := by
  cases v with
  | number n => cases h : n.word? <;> simp [Scalar.ofJson?, h]
  | _ => simp [Scalar.ofJson?]

/-- Where the scalar NULL cannot stand, only a JSON null is assigned as NULL. -/
theorem assigned_eq_null_iff {c : Change} {a : Assigned} (hnull : c ≠ .scalar .null)
    (h : assigned target column c = .ok a) : a = .null ↔ c = .document .null := by
  rcases assigned_cases h with ⟨s, hs, rfl⟩ | ⟨s, hs, rfl⟩ | ⟨members, rfl, rfl⟩
  · rw [assignedScalar_eq_null_iff]
    cases c with
    | scalar s' =>
      cases hs
      simpa using hnull
    | step s' => cases hs
    | document v =>
      have hv : Scalar.ofJson? v = some s := hs
      rw [Change.document.injEq, ← ofJson?_eq_null_iff, hv, Option.some_inj]
  · have hc : c ≠ .document .null := by
      rintro rfl
      cases hs
    simp [hc]
  · simp

theorem carriers_of_stamped {inputs : List Input} {rows : List Row}
    (h : ∀ r ∈ rows, isStamped column r = true) : carriers column inputs rows = inputs.zip rows := by
  rw [carriers, List.filter_eq_self]
  intro p hp
  obtain ⟨c, hc, -⟩ := isStamped_iff.mp (h p.2 (List.of_mem_zip hp).2)
  rw [hc]
  rfl

/-- With stamps, their column has a block, in which each row has a branch: NULL where the row gives a
JSON null, and something else everywhere else. -/
theorem Compiler.null_of_stamp {k : Compiler} {options : Options} {inputs : List Input}
    {c : Compiled} (hstamp : k.target.stamp = some stamp)
    (hne : stamp.column ≠ lookupColumn k.target options) (h : (k.compile options inputs).1 = .ok c) :
    (∃ b ∈ c.statement.blocks, b.column = stamp.column) ∧
      ∀ b ∈ c.statement.blocks, b.column = stamp.column →
        List.Forall₂ (fun i branch => branch.value = .null ↔ i.GivesNull stamp.column) inputs
          b.branches := by
  obtain ⟨rows, hrows, -, htouched, hcolumns⟩ := Compiler.compile_eq_ok h
  obtain ⟨-, -, -, -, -, -, hblocks⟩ := compiledColumns_eq_ok hcolumns
  obtain ⟨hnames, hall⟩ := forall₂_blockOf hblocks
  have hinputs := forall₂_stampedRows hrows
  have hstamped : ∀ r ∈ rows, isStamped stamp.column r = true := by
    intro r hr
    obtain ⟨i, -, hi⟩ := exists_left hinputs hr
    obtain ⟨r₀, -, hr₀⟩ := bind_eq_ok.mp hi
    exact isStamped_of_stamped hstamp hr₀
  refine ⟨?_, ?_⟩
  · obtain ⟨r, hr⟩ : ∃ r, r ∈ rows := by
      apply List.exists_mem_of_ne_nil
      rintro rfl
      exact htouched rfl
    obtain ⟨c', hc', -⟩ := isStamped_iff.mp (hstamped r hr)
    have hmem : stamp.column ∈ c.statement.blocks.map Block.column := by
      rw [hnames]
      exact mem_touchedColumns.mpr ⟨hne, r, hr, Ordered.mem_keys_of_get? hc'⟩
    exact List.mem_map.mp hmem
  · intro b hb hcolumn
    have hbranches := forall₂_carriers hrows (hall b hb)
    rw [hcolumn, carriers_of_stamped hstamped] at hbranches
    have hfst : inputs = (inputs.zip rows).map Prod.fst :=
      (List.map_fst_zip hinputs.length_eq.le).symm
    rw [hfst, List.forall₂_map_left_iff]
    refine hbranches.imp ?_
    rintro ⟨i, r⟩ branch ⟨hr, c', hc', hbranch⟩
    obtain ⟨value, hvalue, rfl⟩ := map_eq_ok.mp hbranch
    obtain ⟨r₀, hr₀, hr⟩ := bind_eq_ok.mp hr
    have hnull : c' ≠ .scalar .null := by
      obtain ⟨c'', hc'', hnull⟩ := isStamped_iff.mp (isStamped_of_stamped hstamp hr)
      cases hc'.symm.trans hc''
      exact hnull
    have hgives : i.GivesNull stamp.column ↔ r.get? stamp.column = some (.document .null) := by
      rw [get?_stamped_iff hr _ (by simp), Input.GivesNull, hr₀]
      simp
    rw [hgives, hc', Option.some_inj]
    exact assigned_eq_null_iff hnull hvalue

end Stamps

section Wrapped

variable {k : Compiler} {options : Options} {before after : List Input} {i : Input} {r : Row}
  {column : String} {s : Scalar} {v : Json} {c : Compiled}

/-- A batch compiles alike with a scalar in a JSON value, where that may stand for the scalar. -/
theorem Compiler.compile_document (hr : i.toRow = .ok r) (hget : r.get? column = some (.scalar s))
    (hv : Scalar.ofJson? v = some s) (h : Interchangeable k.target options column s) :
    (k.compile options (before ++ .row (r.insert column (.document v)) :: after)).1 =
      (k.compile options (before ++ i :: after)).1 := by
  have hentry (known : Option (List String)) (index : Nat) :=
    entryOf_document k.now known index hget hv h
  rw [Compiler.compile_eq, Compiler.compile_eq, compilePlainly_around hr, compilePlainly_around rfl]
  simp only [hentry]

/-- A key in a JSON value is none. -/
theorem Compiler.compile_wrapped_key (hr : i.toRow = .ok r)
    (hcolumn : column = lookupColumn k.target options)
    (h : (k.compile options (before ++ i :: after)).1 = .ok c) :
    (k.compile options (before ++ .row (r.insert column (.document v)) :: after)).1 =
      .error (.missingLookupValue column before.length) := by
  rw [Compiler.compile_eq] at h ⊢
  obtain ⟨known, rows, entries, e, rest, -, -, -, -, -, haround⟩ := exists_around hr h
  have hkey : keyIn (lookupColumn k.target options) (r.insert column (.document v)) = .null := by
    rw [keyIn, Row.get?_insert, if_pos hcolumn]
  rw [haround _ _ rfl, entryOf, keyOf_of_null hkey, hcolumn]
  rfl

/-- A JSON null in the place of NULL puts NULL in the place of a stamp, and changes nothing else. -/
theorem Compiler.compile_wrapped_null {stamp : Stamp} (hr : i.toRow = .ok r)
    (hstamp : k.target.stamp = some stamp) (hne : stamp.column ≠ lookupColumn k.target options)
    (hget : r.get? stamp.column = some (.scalar .null))
    (h : (k.compile options (before ++ i :: after)).1 = .ok c) :
    (k.compile options (before ++ .row (r.insert stamp.column (.document .null)) :: after)).1 =
      .ok ⟨c.statement.nulled stamp.column before.length, c.keys⟩ := by
  rw [Compiler.compile_eq] at h ⊢
  obtain ⟨known, rows, entries, e, rest, hlength, hentries, he, hfiled, rfl, haround⟩ :=
    exists_around hr h
  obtain ⟨rows', hrows', hall⟩ := forall₂_of_entriesOf hentries
  -- All rows have one branch for the column, so the place of the row is that of its branch.
  have hone : (branchesOf stamp.column e.filed).length = 1 := by
    obtain ⟨r', hr', hentry⟩ := isEntry_of_entryOf he
    exact length_branchesOf_stamp hstamp hne hr' hentry
  have hones : ∀ e ∈ entries, (branchesOf stamp.column e.filed).length = 1 := by
    intro e he
    obtain ⟨r', hr', hentry⟩ := exists_left hall he
    obtain ⟨r₀, -, hr₀⟩ := exists_left (mapM_eq_ok.mp hrows') hr'
    exact length_branchesOf_stamp hstamp hne hr₀ hentry
  have hentriesLength : entries.length = before.length := by
    rw [← hall.length_eq, ← (mapM_eq_ok.mp hrows').length_eq, hlength]
  have hfiled' : allFiled (entries ++ e.nulled stamp.column :: rest) ≠ [] := by
    intro hnil
    apply hfiled
    rw [allFiled_append_cons] at hnil ⊢
    rw [filed_nulled, nulledFor] at hnil
    simpa using hnil
  rw [haround _ _ rfl, entryOf_null hstamp hne hget he, ok_bind, if_neg hfiled',
    statementOf_nulled hones hone, hentriesLength]
  rfl

/-- NULL in the place of a stamp makes another statement. -/
theorem Compiler.nulled_ne {stamp : Stamp} (hr : i.toRow = .ok r)
    (hstamp : k.target.stamp = some stamp) (hne : stamp.column ≠ lookupColumn k.target options)
    (hget : r.get? stamp.column = some (.scalar .null))
    (h : (k.compile options (before ++ i :: after)).1 = .ok c) :
    c.statement.nulled stamp.column before.length ≠ c.statement := by
  intro heq
  have h' := Compiler.compile_wrapped_null hr hstamp hne hget h
  rw [heq] at h'
  obtain ⟨⟨b, hb, hcolumn⟩, hall⟩ := Compiler.null_of_stamp hstamp hne h
  obtain ⟨-, hall'⟩ := Compiler.null_of_stamp hstamp hne h'
  obtain ⟨branch, hbranch, hbranch'⟩ := exists_common (hall b hb hcolumn) (hall' b hb hcolumn)
  have hgives : (Input.row (r.insert stamp.column (.document .null))).GivesNull stamp.column :=
    ⟨_, rfl, by rw [Row.get?_insert, if_pos rfl]⟩
  obtain ⟨r', hr', hnull⟩ := hbranch.mp (hbranch'.mpr hgives)
  cases hr.symm.trans hr'
  cases hget.symm.trans hnull

variable (k before after) in
/-- Where a JSON value stands for the scalar in it. A batch compiles alike, or fails alike, with either
of them, unless it is the key of a row or NULL where the time of the update is to be set. A batch that
compiles never does so with the other one there: a key in a JSON value is missing, and instead of a
stamp there is NULL. So a branch of the stamped column has NULL iff its row gives a JSON null for it. -/
theorem Compiler.scalars_in_documents (hr : i.toRow = .ok r) (hget : r.get? column = some (.scalar s))
    (hv : Scalar.ofJson? v = some s) :
    (Interchangeable k.target options column s →
      (k.compile options (before ++ .row (r.insert column (.document v)) :: after)).1 =
        (k.compile options (before ++ i :: after)).1) ∧
    (¬ Interchangeable k.target options column s → ∀ c,
      (k.compile options (before ++ i :: after)).1 = .ok c →
      (column = lookupColumn k.target options ∧
        (k.compile options (before ++ .row (r.insert column (.document v)) :: after)).1 =
          .error (.missingLookupValue column before.length)) ∨
      (column ≠ lookupColumn k.target options ∧
        (k.compile options (before ++ .row (r.insert column (.document v)) :: after)).1 =
          .ok ⟨c.statement.nulled column before.length, c.keys⟩ ∧
        c.statement.nulled column before.length ≠ c.statement)) ∧
    ∀ inputs c stamp, (k.compile options inputs).1 = .ok c → k.target.stamp = some stamp →
      stamp.column ≠ lookupColumn k.target options →
      (∃ b ∈ c.statement.blocks, b.column = stamp.column) ∧
        ∀ b ∈ c.statement.blocks, b.column = stamp.column →
          List.Forall₂ (fun i branch => branch.value = .null ↔ i.GivesNull stamp.column) inputs
            b.branches := by
  refine ⟨Compiler.compile_document hr hget hv, ?_, ?_⟩
  · intro hnot c h
    unfold Interchangeable at hnot
    split_ifs at hnot with hcolumn
    · exact .inl ⟨hcolumn, Compiler.compile_wrapped_key hr hcolumn h⟩
    · push Not at hnot
      obtain ⟨rfl, stamp, hstamp, rfl⟩ := hnot
      cases ofJson?_eq_null_iff.mp hv
      exact .inr ⟨hcolumn, Compiler.compile_wrapped_null hr hstamp hcolumn hget h,
        Compiler.nulled_ne hr hstamp hcolumn hget h⟩
  · intro inputs c stamp h hstamp hne
    exact Compiler.null_of_stamp hstamp hne h

/-- A Boolean in the place of a stamp. -/
theorem Compiler.scalars_in_documents_of_bool :
    let k := Compiler.new ((Target.ofTable "t" "id").withStamp "at" "%Y")
      ⟨⟨2024, 1, 1⟩, ⟨0, 0, 0, 0⟩⟩
    let r : Row := .ofList [("id", .scalar (.int 1)), ("at", .scalar (.bool true))]
    (k.compile .default [.row (r.insert "at" (.document (.bool true)))]).1 =
        (k.compile .default [.row r]).1 ∧
      (k.compile .default [.row r]).1 = .ok ⟨⟨"t", "id", .backtick, false,
        [⟨"at", [⟨"1", .literal "1"⟩]⟩], ["1"]⟩, [.int 1]⟩ := by
  intro k r
  have h : Interchangeable k.target .default "at" (.bool true) := by
    rw [Interchangeable, if_neg (by decide)]
    intro hnull
    cases hnull
  have hget : r.get? "at" = some (.scalar (.bool true)) := rfl
  have hr : (Input.row r).toRow = .ok r := rfl
  have hv : Scalar.ofJson? (.bool true) = some (.bool true) := rfl
  have halike := (Compiler.scalars_in_documents k [] [] hr hget hv).1 h
  rw [List.nil_append, List.nil_append] at halike
  exact ⟨halike, rfl⟩

/-- An integer in a JSON value is no key, and a JSON null is no call for a stamp. -/
theorem Compiler.key_in_document_is_missing :
    let k := Compiler.new ((Target.ofTable "t" "id").withStamp "at" "%Y")
      ⟨⟨2024, 1, 1⟩, ⟨0, 0, 0, 0⟩⟩
    let r : Row := .ofList [("id", .scalar (.int 1)), ("at", .scalar .null)]
    (k.compile .default [.row r]).1 = .ok ⟨⟨"t", "id", .backtick, false,
        [⟨"at", [⟨"1", .literal "2024"⟩]⟩], ["1"]⟩, [.int 1]⟩ ∧
      (k.compile .default [.row (r.insert "id" (.document (.number (.integer 1))))]).1 =
        .error (.missingLookupValue "id" 0) ∧
      (k.compile .default [.row (r.insert "at" (.document .null))]).1 = .ok ⟨⟨"t", "id", .backtick,
        false, [⟨"at", [⟨"1", .null⟩]⟩], ["1"]⟩, [.int 1]⟩ :=
  ⟨rfl, rfl, rfl⟩

end Wrapped

end CaseUpdate.Batch
