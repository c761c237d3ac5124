import CaseUpdate.Proofs.Batch.Faults

namespace CaseUpdate

namespace Calendar

/-- Whether a pattern asks for something of a time zone. -/
def hasZone (pattern : String) : Bool :=
  match readPattern pattern with
  | some items => Item.zone ∈ items
  | none => false

theorem Item.text_eq_none_iff (t : Instant) (i : Item) : i.text t = none ↔ i = .zone := by
  cases i <;> simp [Item.text]

/-- A zone is the only item that an instant cannot be written in. -/
theorem itemsText_eq_none_iff (t : Instant) (items : List Item) :
    itemsText t items = none ↔ Item.zone ∈ items := by
  induction items with
  | nil => simp [itemsText]
  | cons i rest ih =>
    rw [itemsText, List.mem_cons, eq_comm (a := Item.zone), ← Item.text_eq_none_iff t i, ← ih]
    cases i.text t with
    | none => simp
    | some s => cases itemsText t rest <;> simp

/-- Which patterns cannot be written does not depend on the instant. -/
theorem Instant.format_eq_none_iff (t : Instant) (pattern : String) :
    t.format pattern = none ↔ readPattern pattern = none ∨ hasZone pattern := by
  rw [Instant.format, Option.map_eq_none_iff, hasZone]
  cases readPattern pattern with
  | none => simp
  | some items => simp [itemsText_eq_none_iff]

end Calendar

namespace Batch

open Calendar (hasZone readPattern)

/-- Whether a batch is refused because of the pattern of its stamps. -/
def Compiler.Rejects (k : Compiler) (options : Options) (inputs : List Input) : Prop :=
  ∃ pattern, (k.compile options inputs).1 = .error (.invalidDateFormat pattern)

/-- Whether a batch has inputs, and all of them are rows. -/
def AreRows (inputs : List Input) : Prop :=
  inputs ≠ [] ∧ ∃ rows, inputs.mapM Input.toRow = .ok rows

/-- Whether a pattern that no instant can be written in gets past what is checked before the rows. It
must have a zone, and there must be rows that have a key and no stamp. -/
structure FindsZoneLate (target : Target) (options : Options) (s : Stamp) : Prop where
  zone : hasZone s.pattern
  lookup_ne : lookupColumn target options ≠ s.column
  admitted : options.strict = true → target.knownColumns ≠ none

section Faults

variable {target : Target} {now : Calendar.Instant} {options : Options} {s : Stamp}
  {inputs : List Input} {rows : List Row} {pattern : String}

/-- Columns have nothing to do with the pattern of stamps. -/
theorem invalidDateFormat_not_mem_columnFaults (changes : List (String × Change)) :
    .invalidDateFormat pattern ∉ changes.flatMap (columnFaults target options) := by
  rw [List.mem_flatMap]
  rintro ⟨⟨column, c⟩, -, hfault⟩
  rw [columnFaults, List.mem_append] at hfault
  rcases hfault with hfault | hfault
  · split_ifs at hfault <;> simp at hfault
  · split_ifs at hfault
    · cases hfault
    · unfold changeFaults at hfault
      split at hfault
      · obtain ⟨reason, -, hreason⟩ := List.mem_map.mp hfault
        split_ifs at hreason
      · split_ifs at hfault <;> simp at hfault
      · cases hfault

variable (now) in
/-- A row is refused because of the pattern iff it has a key but no stamp of its own, and no stamp can
be written for it. -/
theorem head?_rowFaults_iff (hstamp : target.stamp = some s) (r : Row) (index : Nat) :
    (rowFaults target now options r index).head? = some (.invalidDateFormat pattern) ↔
      keyIn (lookupColumn target options) r ≠ .null ∧ isStamped s.column r = false ∧
        now.format s.pattern = none ∧ s.pattern = pattern := by
  have hcolumns : ((stampedChanges target now r).flatMap (columnFaults target options)).head? ≠
      some (.invalidDateFormat pattern) := by
    intro hhead
    exact invalidDateFormat_not_mem_columnFaults _ (List.mem_of_head? hhead)
  rw [rowFaults, stampFaults, hstamp]
  dsimp only
  by_cases hkey : keyIn (lookupColumn target options) r = .null
  · simp [hkey]
  · cases hstamped : isStamped s.column r with
    | true => simpa [hkey] using hcolumns
    | false =>
      cases hformat : now.format s.pattern with
      | none => simp [hkey]
      | some text => simpa [hkey] using hcolumns

variable (options) in
/-- Before the rows, only a pattern that does not read is a matter of stamps. -/
theorem head?_admissionFaults_iff (hstamp : target.stamp = some s) (hne : rows ≠ []) :
    (admissionFaults target options rows).head? = some (.invalidDateFormat pattern) ↔
      readPattern s.pattern = none ∧ s.pattern = pattern := by
  have hnil : rows.isEmpty = false := by simpa using hne
  rw [admissionFaults, patternFaults, hstamp, hnil]
  cases hread : readPattern s.pattern with
  | none => simp [hread]
  | some items =>
    cases options.strict && target.knownColumns.isNone <;> simp [hread]

end Faults

section Batches

variable {k : Compiler} {options : Options} {s : Stamp} {inputs : List Input} {rows : List Row}

theorem Compiler.rejects_iff (k : Compiler) (options : Options) (inputs : List Input) :
    k.Rejects options inputs ↔
      ∃ pattern, (faults k.target k.now options inputs).head? = some (.invalidDateFormat pattern) := by
  unfold Compiler.Rejects
  exact exists_congr fun _ => (k.reports_compile options inputs).error_iff _

theorem AreRows.exists_rows (h : AreRows inputs) :
    ∃ rows, inputs.mapM Input.toRow = .ok rows ∧ rows ≠ [] := by
  obtain ⟨hne, rows, hrows⟩ := h
  refine ⟨rows, hrows, ?_⟩
  rintro rfl
  exact hne (List.forall₂_nil_right_iff.mp (mapM_eq_ok.mp hrows))

/-- A pattern that does not read is found before any row is looked at. -/
theorem Compiler.rejects_of_unread (hstamp : k.target.stamp = some s)
    (hread : readPattern s.pattern = none) (hrows : inputs.mapM Input.toRow = .ok rows)
    (hne : rows ≠ []) : k.Rejects options inputs := by
  have hhead := (head?_admissionFaults_iff options hstamp hne).mpr ⟨hread, rfl⟩
  refine (k.rejects_iff options inputs).mpr ⟨s.pattern, ?_⟩
  rw [faults_of_rows hrows, List.head?_append, hhead]
  rfl

/-- A pattern that reads is refused later, for a row with a key and without a stamp of its own. -/
theorem Compiler.exists_row_of_rejects (hstamp : k.target.stamp = some s)
    (hread : readPattern s.pattern ≠ none) (hrows : inputs.mapM Input.toRow = .ok rows)
    (hne : rows ≠ []) (h : k.Rejects options inputs) :
    (options.strict = true → k.target.knownColumns ≠ none) ∧
      ∃ r ∈ rows, keyIn (lookupColumn k.target options) r ≠ .null ∧
        isStamped s.column r = false ∧ hasZone s.pattern := by
  obtain ⟨pattern, hhead⟩ := (k.rejects_iff options inputs).mp h
  rw [faults_of_rows hrows, List.head?_append] at hhead
  cases hadmission : (admissionFaults k.target options rows).head? with
  | some e =>
    rw [hadmission] at hhead
    cases hhead
    exact absurd ((head?_admissionFaults_iff options hstamp hne).mp hadmission).1 hread
  | none =>
    rw [hadmission, Option.none_or, List.head?_append, List.head?_flatMap] at hhead
    have hnil := List.head?_eq_none_iff.mp hadmission
    refine ⟨?_, ?_⟩
    · intro hstrict hknown
      simp [admissionFaults, hstrict, hknown] at hnil
    · cases hfound : rows.zipIdx.findSome? (fun r =>
          (rowFaults k.target k.now options r.1 r.2).head?) with
      | none =>
        rw [hfound] at hhead
        split_ifs at hhead <;> simp at hhead
      | some e =>
        rw [hfound] at hhead
        cases hhead
        obtain ⟨⟨r, index⟩, hmem, hrow⟩ := List.exists_of_findSome?_eq_some hfound
        obtain ⟨hkey, hstamped, hformat, -⟩ := (head?_rowFaults_iff k.now hstamp r index).mp hrow
        have hzone := ((k.now.format_eq_none_iff s.pattern).mp hformat).resolve_left hread
        exact ⟨r, (List.mem_zipIdx' hmem).2 ▸ List.getElem_mem _, hkey, hstamped, hzone⟩

theorem FindsZoneLate.reads (h : FindsZoneLate k.target options s) : readPattern s.pattern ≠ none := by
  intro hnone
  have hzone := h.zone
  rw [hasZone, hnone] at hzone
  cases hzone

/-- A zone is found at a row with a key and without a stamp. -/
theorem FindsZoneLate.rejects (h : FindsZoneLate k.target options s)
    (hstamp : k.target.stamp = some s) {r : Row}
    (hkey : keyIn (lookupColumn k.target options) r ≠ .null) (hr : isStamped s.column r = false) :
    k.Rejects options [.row r] := by
  have hformat : k.now.format s.pattern = none :=
    (k.now.format_eq_none_iff s.pattern).mpr (.inr h.zone)
  have hadmission : admissionFaults k.target options [r] = [] := by
    have hknown : (options.strict && k.target.knownColumns.isNone) = false := by
      cases hstrict : options.strict with
      | false => rfl
      | true => simpa [← Option.ne_none_iff_isSome] using h.admitted hstrict
    simp [admissionFaults, patternFaults, hstamp, h.reads, hknown]
  have hrow := (head?_rowFaults_iff k.now hstamp r 0).mpr ⟨hkey, hr, hformat, rfl⟩
  have hrows : [Input.row r].mapM Input.toRow = .ok [r] := rfl
  refine (k.rejects_iff options _).mpr ⟨s.pattern, ?_⟩
  rw [faults_of_rows hrows, hadmission, List.nil_append, List.head?_append]
  simp [hrow]

/-- A row with a key and a stamp is not judged by the pattern. -/
theorem Compiler.not_rejects_of_stamped (hstamp : k.target.stamp = some s)
    (hread : readPattern s.pattern ≠ none) {r : Row} (hr : isStamped s.column r = true) :
    ¬ k.Rejects options [.row r] := by
  intro h
  obtain ⟨-, r', hmem, -, hstamped, -⟩ :=
    Compiler.exists_row_of_rejects hstamp hread rfl (List.cons_ne_nil r []) h
  rw [List.mem_singleton.mp hmem, hr] at hstamped
  cases hstamped

/-- A batch that is judged before its rows is refused iff the pattern does not read. -/
theorem Compiler.rejects_iff_unread (hstamp : k.target.stamp = some s)
    (hearly : ¬ FindsZoneLate k.target options s) (hinputs : AreRows inputs) :
    k.Rejects options inputs ↔ readPattern s.pattern = none := by
  obtain ⟨rows, hrows, hne⟩ := hinputs.exists_rows
  constructor
  · intro hrejects
    by_contra hread
    obtain ⟨hadmitted, r, -, hkey, hr, hzone⟩ :=
      Compiler.exists_row_of_rejects hstamp hread hrows hne hrejects
    refine hearly ⟨hzone, ?_, hadmitted⟩
    intro hlookup
    rw [hlookup] at hkey
    rw [isStamped_of_keyIn hkey] at hr
    cases hr
  · intro hread
    exact Compiler.rejects_of_unread hstamp hread hrows hne

end Batches

/-- Where the pattern of stamps is judged. It cannot be written, whatever the time, iff it does not
read or has a zone. The first is found before the rows; so a batch is refused for its pattern iff that
does not read, and all batches of rows are judged alike, unless the pattern has a zone, the stamp does
not go to the lookup column, and the columns are at hand where they are asked for: then, and only
then, there are batches for the same target that are judged differently. -/
theorem Compiler.rejects_alike {k : Compiler} {s : Stamp} (hstamp : k.target.stamp = some s)
    (options : Options) :
    (k.now.format s.pattern = none ↔ readPattern s.pattern = none ∨ hasZone s.pattern) ∧
    ((∀ inputs inputs', AreRows inputs → AreRows inputs' →
        (k.Rejects options inputs ↔ k.Rejects options inputs')) ↔
      ¬ FindsZoneLate k.target options s) ∧
    (¬ FindsZoneLate k.target options s → ∀ inputs, AreRows inputs →
      (k.Rejects options inputs ↔ readPattern s.pattern = none)) := by
  refine ⟨k.now.format_eq_none_iff s.pattern, ⟨?_, ?_⟩, ?_⟩
  · intro halike hlate
    have hkey : keyIn (lookupColumn k.target options)
        (Row.empty.set (lookupColumn k.target options) (.text "")) ≠ .null := by
      simp [keyIn, Row.set, Row.get?_insert]
    have hunstamped : isStamped s.column
        (Row.empty.set (lookupColumn k.target options) (.text "")) = false := by
      rw [isStamped, Row.set, Row.get?_insert, if_neg hlate.lookup_ne]
      rfl
    have hstamped : isStamped s.column ((Row.empty.set (lookupColumn k.target options)
        (.text "")).set s.column (.text "")) = true := by
      rw [isStamped, Row.set, Row.get?_insert, if_pos rfl]
      rfl
    have hrejects := hlate.rejects hstamp hkey hunstamped
    exact Compiler.not_rejects_of_stamped hstamp hlate.reads hstamped
      ((halike _ _ ⟨by simp, _, rfl⟩ ⟨by simp, _, rfl⟩).mp hrejects)
  · intro hearly inputs inputs' hinputs hinputs'
    rw [Compiler.rejects_iff_unread hstamp hearly hinputs,
      Compiler.rejects_iff_unread hstamp hearly hinputs']
  · intro hearly inputs hinputs
    exact Compiler.rejects_iff_unread hstamp hearly hinputs

/-- A percent sign before the letter of a zone is no directive of one: a row without a stamp is not
refused for it. -/
theorem Compiler.rejects_alike_of_escaped :
    hasZone "%Y%%z" = false ∧
    ¬ (Compiler.new ((Target.ofTable "t" "id").withStamp "at" "%Y%%z")
      ⟨⟨2024, 1, 1⟩, ⟨0, 0, 0, 0⟩⟩).Rejects .default
        [.row (.ofList [("id", .scalar (.int 1)), ("at", .scalar (.text "then"))]),
          .row (.ofList [("id", .scalar (.int 2))])] := by
  have hzone : hasZone "%Y%%z" = false := by decide
  have hread : readPattern "%Y%%z" ≠ none := by decide
  have hearly : ¬ FindsZoneLate ((Target.ofTable "t" "id").withStamp "at" "%Y%%z") .default
      ⟨"at", "%Y%%z"⟩ := by
    intro h
    exact absurd h.zone (by rw [hzone]; simp)
  refine ⟨hzone, ?_⟩
  rw [(Compiler.rejects_alike (k := Compiler.new ((Target.ofTable "t" "id").withStamp "at" "%Y%%z")
    ⟨⟨2024, 1, 1⟩, ⟨0, 0, 0, 0⟩⟩) rfl .default).2.2 hearly _ ⟨by simp, _, rfl⟩]
  exact hread

/-- With a zone, whether a batch is refused for the pattern depends on which rows bring a stamp, and
on the errors of the rows before. -/
theorem Compiler.zone_is_found_late :
    (Compiler.new ((Target.ofTable "t" "id").withStamp "at" "%z")
      ⟨⟨2024, 1, 1⟩, ⟨0, 0, 0, 0⟩⟩).Rejects .default [.row (.ofList [("id", .scalar (.int 1))])] ∧
    ¬ (Compiler.new ((Target.ofTable "t" "id").withStamp "at" "%z")
      ⟨⟨2024, 1, 1⟩, ⟨0, 0, 0, 0⟩⟩).Rejects .default
        [.row (.ofList [("id", .scalar (.int 1)), ("at", .scalar (.text "then"))])] ∧
    ¬ (Compiler.new ((Target.ofTable "t" "id").withStamp "at" "%z")
      ⟨⟨2024, 1, 1⟩, ⟨0, 0, 0, 0⟩⟩).Rejects .default
        [.row (.ofList [("a", .scalar (.int 1))]), .row (.ofList [("id", .scalar (.int 1))])] := by
  refine ⟨⟨"%z", rfl⟩, ?_, ?_⟩
  · rintro ⟨pattern, h⟩
    cases h
  · rintro ⟨pattern, h⟩
    cases h

end Batch

end CaseUpdate
