import CaseUpdate.Proofs.Batch.Blocks

namespace CaseUpdate

def Target.withoutStamp (t : Target) : Target := { t with stamp := none }

namespace Batch

open Calendar (Instant)

/-- A row as a caller would stamp it: the text is set where the row has nothing for the column or
NULL. -/
def prefilled (column text : String) (r : Row) : Row :=
  match r.get? column with
  | none | some (.scalar .null) => r.set column (.text text)
  | some _ => r

/-- What a row gives for the stamped column then. -/
def stampChange (column text : String) (r : Row) : Change :=
  match r.get? column with
  | none | some (.scalar .null) => .scalar (.text text)
  | some c => c

/-- An input with its row as a caller would stamp it. -/
def Input.prefilled (column text : String) (i : Input) : Input :=
  match i.toRow with
  | .ok r => .row (Batch.prefilled column text r)
  | .error _ => i

section Rows

variable {column text : String} (r : Row)

theorem prefilled_eq : prefilled column text r =
    if isStamped column r then r else r.set column (.text text) := by
  unfold prefilled isStamped
  cases r.get? column with
  | none => rfl
  | some c =>
    cases c with
    | scalar s => cases s <;> rfl
    | step s => rfl
    | document v => rfl

theorem get?_prefilled_self :
    (prefilled column text r).get? column = some (stampChange column text r) := by
  have hset : (r.set column (.text text)).get? column = some (.scalar (.text text)) := by
    rw [Row.set, Row.get?_insert, if_pos rfl]
  unfold prefilled stampChange
  cases hc : r.get? column with
  | none => exact hset
  | some c =>
    cases c with
    | scalar s =>
      cases s with
      | null => exact hset
      | bool b => exact hc
      | int n => exact hc
      | float x => exact hc
      | text s => exact hc
    | step s => exact hc
    | document v => exact hc

theorem get?_prefilled {other : String} (hne : other ≠ column) :
    (prefilled column text r).get? other = r.get? other := by
  rw [prefilled_eq]
  split_ifs
  · rfl
  · rw [Row.set, Row.get?_insert, if_neg hne.symm]

/-- The other columns keep their order. -/
theorem columns_prefilled :
    (prefilled column text r).columns.filter (· ≠ column) = r.columns.filter (· ≠ column) := by
  rw [prefilled_eq]
  split_ifs
  · rfl
  · rw [Row.columns, Row.set, Row.insert, Ordered.keys_put]
    split_ifs
    · rfl
    · rw [List.filter_append]
      simp [Row.columns]

variable {r}

theorem stamped_eq_prefilled {target : Target} {now : Instant} {pattern : String}
    (hstamp : target.stamp = some ⟨column, pattern⟩) (hformat : now.format pattern = some text) :
    stamped target now r = .ok (prefilled column text r) := by
  rw [prefilled_eq, stamped, hstamp]
  dsimp only
  split_ifs
  · rfl
  · rw [hformat]

theorem mapM_stamped {target : Target} {now : Instant} {pattern : String} {rows rows' : List Row}
    (hstamp : target.stamp = some ⟨column, pattern⟩) (hformat : now.format pattern = some text)
    (h : rows.mapM (stamped target now) = .ok rows') : rows' = rows.map (prefilled column text) := by
  induction rows generalizing rows' with
  | nil =>
    cases h
    rfl
  | cons r rest ih =>
    rw [List.mapM_cons, stamped_eq_prefilled hstamp hformat, ok_bind] at h
    obtain ⟨rest', hrest, h⟩ := bind_eq_ok.mp h
    cases h
    rw [ih hrest, List.map_cons]

theorem stamped_withoutStamp (target : Target) (now : Instant) (r : Row) :
    stamped target.withoutStamp now r = .ok r := rfl

end Rows

section Inputs

variable (column text : String)

theorem Input.toRow_prefilled (i : Input) :
    (i.prefilled column text).toRow = i.toRow.map (Batch.prefilled column text) := by
  unfold Input.prefilled
  cases h : i.toRow with
  | ok r => rfl
  | error e => rw [h, Except.map]

theorem mapM_toRow_prefilled (inputs : List Input) :
    (inputs.map (Input.prefilled column text)).mapM Input.toRow =
      (inputs.mapM Input.toRow).map (List.map (prefilled column text)) := by
  induction inputs with
  | nil => rfl
  | cons i rest ih =>
    rw [List.map_cons, List.mapM_cons, List.mapM_cons, Input.toRow_prefilled, ih]
    cases i.toRow with
    | error e => rfl
    | ok r => cases rest.mapM Input.toRow <;> rfl

end Inputs

section Entries

variable {target : Target} {now now' : Instant} {known : Option (List String)} {lookup : String}

/-- What a row assigns has nothing to do with the stamps of its target. -/
theorem assignments_withoutStamp (changes : List (String × Change)) :
    assignments target.withoutStamp known lookup changes =
      assignments target known lookup changes := by
  induction changes with
  | nil => rfl
  | cons m rest ih =>
    obtain ⟨column, c⟩ := m
    have hcontribution : contribution target.withoutStamp known lookup column c =
        contribution target known lookup column c := rfl
    rw [assignments, assignments, hcontribution, ih]

/-- A stamp that can be written: the row is as its caller would have stamped it. The key is read
before the stamp comes, and so it is the same unless the stamp goes to the lookup column. -/
theorem entryOf_prefilled {column pattern text : String}
    (hstamp : target.stamp = some ⟨column, pattern⟩) (hformat : now.format pattern = some text)
    (hne : lookup ≠ column) (index : Nat) (r : Row) :
    entryOf target now known lookup index r =
      entryOf target.withoutStamp now' known lookup index (prefilled column text r) := by
  have hkey : keyOf lookup index (prefilled column text r) = keyOf lookup index r := by
    rw [keyOf, keyOf, get?_prefilled r hne]
  rw [entryOf, entryOf, hkey, stamped_eq_prefilled hstamp hformat, stamped_withoutStamp]
  simp only [ok_bind, assignments_withoutStamp]
  rfl

/-- A row with a key in the stamped column brings a stamp of its own. -/
theorem entryOf_withoutStamp {pattern : String} (hstamp : target.stamp = some ⟨lookup, pattern⟩)
    (index : Nat) (r : Row) :
    entryOf target now known lookup index r =
      entryOf target.withoutStamp now' known lookup index r := by
  rw [entryOf, entryOf]
  cases hkey : keyOf lookup index r with
  | error e => rfl
  | ok key =>
    obtain ⟨hget, hnull⟩ := keyOf_eq_ok hkey
    have hstamped : isStamped lookup r := by
      rw [isStamped, hget]
      simpa using hnull
    have hself : stamped target now r = .ok r := by
      rw [stamped, hstamp]
      exact if_pos hstamped
    rw [hself, stamped_withoutStamp]
    simp only [ok_bind, assignments_withoutStamp]
    rfl

theorem entriesOf_map {f : Row → Row}
    (hentry : ∀ index r, entryOf target now known lookup index r =
      entryOf target.withoutStamp now' known lookup index (f r)) (index : Nat) (rows : List Row) :
    entriesOf target now known lookup index rows =
      entriesOf target.withoutStamp now' known lookup index (rows.map f) := by
  induction rows generalizing index with
  | nil => rfl
  | cons r rest ih => rw [List.map_cons, entriesOf, entriesOf, hentry, ih]

/-- A batch whose stamps can be written compiles as the batch of other rows without stamps, if its
entries are theirs. -/
theorem compilePlainly_withoutStamp {options : Options} {inputs inputs' : List Input} {f : Row → Row}
    (hpattern : checkPattern target = .ok ())
    (hentry : ∀ known index r, entryOf target now known (lookupColumn target options) index r =
      entryOf target.withoutStamp now' known (lookupColumn target options) index (f r))
    (hinputs : inputs'.mapM Input.toRow = (inputs.mapM Input.toRow).map (List.map f)) :
    compilePlainly target now options inputs =
      compilePlainly target.withoutStamp now' options inputs' := by
  rw [compilePlainly, compilePlainly, hinputs]
  cases inputs.mapM Input.toRow with
  | error e => rfl
  | ok rows =>
    have hadmission : admission target.withoutStamp options (rows.map f) =
        admission target options rows := by
      rw [admission, admission, hpattern, List.isEmpty_map]
      rfl
    simp only [Except.map, ok_bind, hadmission]
    congr 1
    funext known
    rw [entriesOf_map (hentry known) 0 rows]
    rfl

end Entries

theorem checkPattern_of_format {target : Target} {now : Instant} {column pattern text : String}
    (hstamp : target.stamp = some ⟨column, pattern⟩) (hformat : now.format pattern = some text) :
    checkPattern target = .ok () := by
  obtain ⟨chars, hchars, -⟩ := Option.map_eq_some_iff.mp hformat
  obtain ⟨items, hread, -⟩ := Option.bind_eq_some_iff.mp hchars
  rw [checkPattern, hstamp]
  dsimp only
  rw [hread]

section Blocks

theorem filter_eraseDups (p : String → Bool) (l : List String) :
    l.eraseDups.filter p = (l.filter p).eraseDups := by
  induction l using List.reverseRecOn with
  | nil => rfl
  | append_singleton l a ih =>
    rw [eraseDups_concat, List.filter_append]
    by_cases ha : p a
    · have hsingle : [a].filter p = [a] := by simp [ha]
      have hmem : a ∈ l.filter p ↔ a ∈ l := by simp [ha]
      rw [hsingle, eraseDups_concat, ← ih]
      by_cases hl : a ∈ l
      · rw [if_pos hl, if_pos (hmem.mpr hl)]
      · rw [if_neg hl, if_neg (fun h => hl (hmem.mp h)), List.filter_append, hsingle]
    · have hnone : [a].filter p = [] := by simp [ha]
      rw [hnone, List.append_nil, ← ih]
      split_ifs
      · rfl
      · rw [List.filter_append, hnone, List.append_nil]

theorem rel_filter_blocks {target : Target} {lookup : String} {rows : List Row}
    {columns : List String} {blocks : List Block} (p : String → Bool)
    (h : List.Forall₂ (fun other b => blockOf target lookup rows other = .ok b) columns blocks) :
    List.Forall₂ (fun other b => blockOf target lookup rows other = .ok b) (columns.filter p)
      (blocks.filter fun b => p b.column) := by
  apply List.rel_filter _ h
  intro other b hb
  simp [(blockOf_eq_ok hb).1]

theorem filter_touchedColumns_prefilled (column text lookup : String) (rows : List Row) :
    (touchedColumns lookup (rows.map (prefilled column text))).filter (· ≠ column) =
      (touchedColumns lookup rows).filter (· ≠ column) := by
  have hcolumns : ((rows.map (prefilled column text)).flatMap Row.columns).filter (· ≠ column) =
      (rows.flatMap Row.columns).filter (· ≠ column) := by
    induction rows with
    | nil => rfl
    | cons r rest ih =>
      rw [List.map_cons, List.flatMap_cons, List.flatMap_cons, List.filter_append,
        List.filter_append, columns_prefilled, ih]
  rw [touchedColumns, touchedColumns, filter_eraseDups, filter_eraseDups, List.filter_comm,
    hcolumns, List.filter_comm]

variable {column text lookup : String} (hne : lookup ≠ column)

include hne

/-- The stamped column is among those of every row, and so it has a block. -/
theorem filter_touchedColumns_self {rows : List Row}
    (hrows : touchedColumns lookup (rows.map (prefilled column text)) ≠ []) :
    (touchedColumns lookup (rows.map (prefilled column text))).filter (· = column) = [column] := by
  have hmem : column ∈ touchedColumns lookup (rows.map (prefilled column text)) := by
    cases rows with
    | nil => exact absurd rfl hrows
    | cons r rest =>
      rw [mem_touchedColumns]
      refine ⟨hne.symm, prefilled column text r, by simp, ?_⟩
      exact Ordered.mem_keys_of_get? (get?_prefilled_self r)
  have hcount : (touchedColumns lookup (rows.map (prefilled column text))).count column = 1 :=
    List.count_eq_one_of_mem (nodup_eraseDups _) hmem
  have hfilter : (touchedColumns lookup (rows.map (prefilled column text))).filter (· == column) =
      List.replicate _ column := List.filter_beq column
  rw [hcount] at hfilter
  exact hfilter

theorem keyIn_prefilled (r : Row) : keyIn lookup (prefilled column text r) = keyIn lookup r := by
  rw [keyIn, keyIn, get?_prefilled r hne]

/-- Another column is carried by the same rows, which give the same for it. -/
theorem carried_prefilled {other : String} (hother : other ≠ column) (rows : List Row) :
    carried lookup other (rows.map (prefilled column text)) = carried lookup other rows := by
  rw [carried, carried, List.filterMap_map]
  apply List.filterMap_congr
  intro r _
  rw [Function.comp_apply, get?_prefilled r hother, keyIn_prefilled hne]

/-- The stamped column is carried by all rows. -/
theorem carried_prefilled_self (rows : List Row) :
    carried lookup column (rows.map (prefilled column text)) =
      rows.map fun r => (keyIn lookup r, stampChange column text r) := by
  rw [carried, List.filterMap_map, ← List.filterMap_eq_map]
  apply List.filterMap_congr
  intro r _
  rw [Function.comp_apply, get?_prefilled_self, keyIn_prefilled hne]
  rfl

theorem blockOf_prefilled {target : Target} {other : String} (hother : other ≠ column)
    (rows : List Row) :
    blockOf target lookup (rows.map (prefilled column text)) other =
      blockOf target lookup rows other := by
  rw [blockOf, blockOf, carried_prefilled hne hother]

end Blocks

/-- Injecting stamps is what a caller would do who sets them. With a clock that stands and a pattern
that it can be written in, the batch compiles, or fails, as it does for the target without stamps once
each row has the text in the stamped column where it brought nothing or NULL; if the stamped column is
the lookup column, as the batch does as it is. So the stamped column, where it is not that one, has one
block with a branch for each row, in which nothing is overwritten that a row brings; and the blocks of
the other columns are those of the rows as they were given. -/
theorem Compiler.stamps_are_prefilled {k : Compiler} {column pattern text : String}
    (hstamp : k.target.stamp = some ⟨column, pattern⟩) (hformat : k.now.format pattern = some text)
    (options : Options) (inputs : List Input) :
    (∀ k' : Compiler, k'.target = k.target.withoutStamp →
      (lookupColumn k.target options ≠ column → (k.compile options inputs).1 =
        (k'.compile options (inputs.map (Input.prefilled column text))).1) ∧
      (lookupColumn k.target options = column →
        (k.compile options inputs).1 = (k'.compile options inputs).1)) ∧
    (lookupColumn k.target options ≠ column → ∀ c, (k.compile options inputs).1 = .ok c →
      ∃ rows, inputs.mapM Input.toRow = .ok rows ∧
        (∃ b, c.statement.blocks.filter (fun b => b.column = column) = [b] ∧
          List.Forall₂ (fun r branch =>
              branch.key = keyLiteral k.target (keyIn (lookupColumn k.target options) r) ∧
              assigned k.target column (stampChange column text r) = .ok branch.value)
            rows b.branches) ∧
        List.Forall₂
          (fun other b => blockOf k.target (lookupColumn k.target options) rows other = .ok b)
          ((touchedColumns (lookupColumn k.target options) rows).filter (· ≠ column))
          (c.statement.blocks.filter fun b => b.column ≠ column)) := by
  refine ⟨?_, ?_⟩
  · intro k' hk'
    have hpattern := checkPattern_of_format hstamp hformat
    refine ⟨?_, ?_⟩
    · intro hne
      rw [compile_eq, compile_eq, hk']
      exact compilePlainly_withoutStamp hpattern
        (fun _ => entryOf_prefilled hstamp hformat hne) (mapM_toRow_prefilled column text inputs)
    · rintro rfl
      have hinputs : inputs.mapM Input.toRow = (inputs.mapM Input.toRow).map (List.map id) := by
        cases inputs.mapM Input.toRow <;> simp [Except.map]
      rw [compile_eq, compile_eq, hk']
      exact compilePlainly_withoutStamp hpattern (fun _ => entryOf_withoutStamp hstamp) hinputs
  · intro hne c hc
    obtain ⟨stamped, hstamped, -, htouched, hcolumns⟩ := compile_eq_ok hc
    obtain ⟨rows, hrows, hall⟩ := bind_eq_ok.mp hstamped
    obtain ⟨-, -, -, -, -, -, hblocks⟩ := compiledColumns_eq_ok hcolumns
    have hprefilled := mapM_stamped hstamp hformat hall
    subst hprefilled
    refine ⟨rows, hrows, ?_, ?_⟩
    · have hself := rel_filter_blocks (· = column) hblocks
      rw [filter_touchedColumns_self hne htouched] at hself
      obtain ⟨b, bs, hb, hbs, heq⟩ := List.forall₂_cons_left_iff.mp hself
      rw [List.forall₂_nil_left_iff.mp hbs] at heq
      refine ⟨b, heq, ?_⟩
      have hbranches := (blockOf_eq_ok hb).2
      rw [carried_prefilled_self hne, List.forall₂_map_left_iff] at hbranches
      apply hbranches.imp
      intro r branch hbranch
      obtain ⟨value, hvalue, rfl⟩ := map_eq_ok.mp hbranch
      exact ⟨rfl, hvalue⟩
    · have hothers := rel_filter_blocks (· ≠ column) hblocks
      rw [filter_touchedColumns_prefilled] at hothers
      have hmem : ∀ other ∈ (touchedColumns (lookupColumn k.target options) rows).filter
          (· ≠ column), other ≠ column := by simp
      apply ((List.forall₂_and_left _ _).mpr ⟨hmem, hothers⟩).imp
      rintro other b ⟨hother, hb⟩
      rwa [blockOf_prefilled hne hother] at hb

/-- A row without a stamp, one with NULL, and one that brings its own. -/
theorem Compiler.stamps_are_prefilled_of_three :
    ∃ c, ((Compiler.new ((Target.ofTable "t" "id").withStamp "at" "%Y")
        ⟨⟨2024, 1, 1⟩, ⟨0, 0, 0, 0⟩⟩).compile .default
        [.row (.ofList [("id", .scalar (.int 1)), ("a", .scalar (.text "x"))]),
          .row (.ofList [("at", .scalar .null), ("id", .scalar (.int 2))]),
          .row (.ofList [("at", .scalar (.text "then")), ("id", .scalar (.int 3))])]).1 = .ok c ∧
      c.statement.blocks = [⟨"a", [⟨"1", .literal "x"⟩]⟩,
        ⟨"at", [⟨"1", .literal "2024"⟩, ⟨"2", .literal "2024"⟩, ⟨"3", .literal "then"⟩]⟩] ∧
      ∃ b, c.statement.blocks.filter (fun b => b.column = "at") = [b] := by
  have hformat : Instant.format ⟨⟨2024, 1, 1⟩, ⟨0, 0, 0, 0⟩⟩ "%Y" = some "2024" := by decide
  obtain ⟨hprefilled, hblocks⟩ := Compiler.stamps_are_prefilled
    (k := Compiler.new ((Target.ofTable "t" "id").withStamp "at" "%Y") ⟨⟨2024, 1, 1⟩, ⟨0, 0, 0, 0⟩⟩)
    rfl hformat .default
    [.row (.ofList [("id", .scalar (.int 1)), ("a", .scalar (.text "x"))]),
      .row (.ofList [("at", .scalar .null), ("id", .scalar (.int 2))]),
      .row (.ofList [("at", .scalar (.text "then")), ("id", .scalar (.int 3))])]
  have hsame := (hprefilled (.new (.ofTable "t" "id") ⟨⟨2024, 1, 1⟩, ⟨0, 0, 0, 0⟩⟩) rfl).1
    (by decide)
  have hcaller : ((Compiler.new (.ofTable "t" "id") ⟨⟨2024, 1, 1⟩, ⟨0, 0, 0, 0⟩⟩).compile .default
      [.row (.ofList [("id", .scalar (.int 1)), ("a", .scalar (.text "x")),
          ("at", .scalar (.text "2024"))]),
        .row (.ofList [("at", .scalar (.text "2024")), ("id", .scalar (.int 2))]),
        .row (.ofList [("at", .scalar (.text "then")), ("id", .scalar (.int 3))])]).1 =
      .ok ⟨⟨"t", "id", .backtick, false, [⟨"a", [⟨"1", .literal "x"⟩]⟩,
        ⟨"at", [⟨"1", .literal "2024"⟩, ⟨"2", .literal "2024"⟩, ⟨"3", .literal "then"⟩]⟩],
        ["1", "2", "3"]⟩, [.int 1, .int 2, .int 3]⟩ := by
    rfl
  have hc := hsame.trans hcaller
  obtain ⟨-, -, ⟨b, hb, -⟩, -⟩ := hblocks (by decide) _ hc
  exact ⟨_, hc, rfl, b, hb⟩

end Batch

end CaseUpdate
