import CaseUpdate.Proofs.Batch.Given
import CaseUpdate.Proofs.Database.Effect
import CaseUpdate.Proofs.Decimal.Positional

namespace CaseUpdate

open Decimal (IsNumeral)

/-- A numeral, or one with a minus in brackets. -/
def IsOperandText (s : List Char) : Prop :=
  IsNumeral s ∨ ∃ numeral, IsNumeral numeral ∧ s = '(' :: '-' :: (numeral ++ [')'])

namespace Operand

/-- The text of an operand after its operator. -/
def bracketed (x : Operand) : List Char :=
  if x.isNegative then '(' :: (x.chars ++ [')']) else x.chars

theorem isNumeral_magnitudeChars {x : Operand} (h : x.isFinite) : IsNumeral x.magnitudeChars := by
  cases x with
  | int n => exact (Decimal.allDigits_toDigits n.natAbs).isNumeral Nat.toDigits_ne_nil
  | float x =>
    cases x with
    | nan negative => cases h
    | infinite negative => cases h
    | finite negative x => exact x.isNumeral_plain

theorem isSigned_of_isFinite {x : Operand} (h : x.isFinite) : x.isSigned = x.isNegative := by
  cases x with
  | int n => rfl
  | float x =>
    cases x with
    | nan negative => cases h
    | infinite negative => rfl
    | finite negative x => rfl

theorem isOperandText_of_isFinite {x : Operand} (h : x.isFinite) : IsOperandText x.bracketed := by
  have hnumeral := isNumeral_magnitudeChars h
  have hchars := x.chars_eq
  rw [isSigned_of_isFinite h] at hchars
  unfold bracketed
  rw [hchars]
  cases x.isNegative with
  | false => exact .inl hnumeral
  | true => exact .inr ⟨_, hnumeral, rfl⟩

end Operand

theorem IsOperandText.mem {s : List Char} (hs : IsOperandText s) {c : Char} (hc : c ∈ s) :
    c.isDigit ∨ c ∈ ['(', '-', '.', ')'] := by
  have hnumeral {numeral : List Char} (hn : IsNumeral numeral) (hmem : c ∈ numeral) :
      c.isDigit ∨ c ∈ ['(', '-', '.', ')'] := by
    apply (hn.mem hmem).imp_right
    rintro rfl
    decide
  rcases hs with hs | ⟨numeral, hn, rfl⟩
  · exact hnumeral hs hc
  · simp only [List.mem_cons, List.mem_append, List.not_mem_nil, or_false] at hc
    rcases hc with rfl | rfl | hmem | rfl
    · exact .inr (by decide)
    · exact .inr (by decide)
    · exact hnumeral hn hmem
    · exact .inr (by decide)

/-- What is no number is written with letters. -/
theorem Operand.exists_letter {x : Operand} (h : x.isFinite = false) :
    'N' ∈ x.bracketed ∨ 'i' ∈ x.bracketed := by
  cases x with
  | int n => cases h
  | float x =>
    cases x with
    | nan negative => cases negative <;> decide
    | infinite negative => cases negative <;> decide
    | finite negative x => cases h

theorem Operand.isOperandText_iff (x : Operand) : IsOperandText x.bracketed ↔ x.isFinite := by
  constructor
  · intro htext
    by_contra hfinite
    rcases exists_letter (by simpa using hfinite) with hmem | hmem
    · exact absurd (htext.mem hmem) (by decide)
    · exact absurd (htext.mem hmem) (by decide)
  · exact isOperandText_of_isFinite

/-! Operands that are read -/

theorem Operand.isFinite_of_filter {d? : Option Decimal.Double} {x : Operand}
    (h : (d?.filter Decimal.Double.isFinite).map .float = some x) : x.isFinite := by
  obtain ⟨d, hd, rfl⟩ := Option.map_eq_some_iff.mp h
  exact (Option.filter_eq_some_iff.mp hd).2

theorem Operand.isFinite_read {s : String} {x : Operand} (h : Operand.read s = some x) :
    x.isFinite := by
  unfold Operand.read at h
  dsimp only at h
  split at h
  · cases h
    rfl
  · exact isFinite_of_filter h

theorem Operand.isFinite_ofJson? {v : Json} {x : Operand} (h : Operand.ofJson? v = some x) :
    x.isFinite := by
  cases v with
  | number n =>
    rw [Operand.ofJson?] at h
    split at h
    · cases h
      rfl
    · exact isFinite_of_filter h
  | text s => exact Operand.isFinite_read h
  | null => cases h
  | bool b => cases h
  | array items => cases h
  | object members => cases h

theorem Step.isFinite_ofItems {items : List Json} {s : Step} (h : Step.ofItems items = .ok s) :
    s.operand.isFinite := by
  unfold Step.ofItems at h
  split at h
  · split at h
    · cases h
    · cases h
    · rename_i hoperand
      cases h
      exact Operand.isFinite_ofJson? hoperand
  · cases h

namespace Batch

open Calendar (Instant)

/-- The text of a step whose operand is a number: the quoted column, an operator, and the operand. -/
def IsStepText (style : Sql.NameStyle) (column : String) (s : List Char) : Prop :=
  ∃ (op : Operator) (operand : List Char), IsOperandText operand ∧
    s = style.quoteChars column ++ op.symbol :: operand

theorem Statement.isStepText_iff (st : Statement) (column : String) (s : Step) :
    IsStepText st.style column (st.assignedChars column (.step s)) ↔ s.operand.isFinite := by
  have hchars : st.assignedChars column (.step s) =
      st.style.quoteChars column ++ s.operator.symbol :: s.operand.bracketed := rfl
  rw [hchars, ← Operand.isOperandText_iff]
  constructor
  · rintro ⟨op, operand, htext, h⟩
    obtain ⟨-, rfl⟩ := List.cons.inj (List.append_cancel_left h)
    exact htext
  · intro htext
    exact ⟨s.operator, _, htext, rfl⟩

section Infixes

theorem infix_separated (separator : List Char) {α : Type} (f : α → List Char) {l : List α} {a : α}
    (ha : a ∈ l) : f a <:+: separated separator (l.map f) := by
  induction l with
  | nil => cases ha
  | cons d rest ih =>
    cases rest with
    | nil =>
      rw [List.mem_singleton.mp ha]
      exact List.infix_rfl
    | cons d' rest =>
      change f a <:+: f d ++ separator ++ separated separator ((d' :: rest).map f)
      rcases List.mem_cons.mp ha with rfl | hrest
      · rw [List.append_assoc]
        exact List.infix_append' [] (f a) _
      · exact (ih hrest).trans (List.suffix_append _ _).isInfix

variable {st : Statement} {b : Block} {w : Branch}

/-- What a branch assigns stands in the statement as it is. -/
theorem Statement.infix_chars (hb : b ∈ st.blocks) (hw : w ∈ b.branches) :
    st.assignedChars b.column w.value <:+: st.sql.toList := by
  have hbranch : st.assignedChars b.column w.value <:+: st.branchChars b.column w :=
    (List.suffix_append _ _).isInfix
  have hblock : separated ['\n'] (b.branches.map (st.branchChars b.column)) <:+: st.blockChars b := by
    unfold Statement.blockChars
    rw [List.append_assoc, List.append_assoc]
    exact List.infix_append _ _ _
  have hchars : separated "\n,".toList (st.blocks.map st.blockChars) <:+: st.chars := by
    unfold Statement.chars
    simp only [List.append_assoc]
    apply List.infix_append_of_infix_right
    apply List.infix_append_of_infix_right
    exact List.infix_append' _ _ _
  have hbranches := (infix_separated ['\n'] (st.branchChars b.column) hw).trans hblock
  have hblocks := (infix_separated "\n,".toList st.blockChars hb).trans hchars
  rw [Statement.toList_sql]
  exact (hbranch.trans hbranches).trans hblocks

end Infixes

section Rows

variable {target : Target} {now : Instant} {column : String} {s : Step}

/-- A step is set in a row, or read from JSON, where only numbers are read. -/
theorem assigned_step {c : Change} (h : assigned target column c = .ok (.step s)) :
    c = .step s ∨ s.operand.isFinite := by
  rcases assigned_cases h with ⟨x, -, hx⟩ | ⟨s', hs, hstep⟩ | ⟨members, -, hm⟩
  · unfold assignedScalar at hx
    cases hbody : target.literalStyle.escapeScalar x <;> simp [hbody] at hx
  · cases hstep
    unfold step? at hs
    split at hs
    · cases hs
      exact .inl rfl
    · exact .inr (Step.isFinite_ofItems (toOption_eq_some.mp hs))
    · cases hs
  · cases hm

/-- Rows that are read from JSON have no steps yet. -/
theorem Input.eq_row_of_step {i : Input} {r : Row} (hi : i.toRow = .ok r)
    (hs : r.get? column = some (.step s)) : i = .row r := by
  have hjson {v : Json} (hv : rowOfJson v = .ok r) : False := by
    cases v with
    | object members =>
      cases hv
      have hmem := Ordered.mem_of_mem_ofList (Ordered.mem_of_get? hs)
      obtain ⟨m, -, hm⟩ := List.mem_map.mp hmem
      have hstep : Change.ofJson m.2 = .step s := congrArg Prod.snd hm
      unfold Change.ofJson at hstep
      cases hscalar : Scalar.ofJson? m.2 with
      | none =>
        rw [hscalar] at hstep
        cases hstep
      | some x =>
        rw [hscalar] at hstep
        cases hstep
    | null => cases hv
    | bool b => cases hv
    | number n => cases hv
    | text t => cases hv
    | array items => cases hv
  cases i with
  | row r' =>
    cases hi
    rfl
  | json v => exact (hjson hi).elim
  | record d =>
    rw [Input.toRow, rowOfRecord] at hi
    cases hd : d.toJson with
    | ok v =>
      rw [hd] at hi
      exact (hjson hi).elim
    | error reason =>
      rw [hd] at hi
      cases hi

end Rows

section Carriers

variable {k : Compiler} {options : Options} {inputs : List Input} {c : Compiled}

/-- A step in a batch has a number as its operand unless one of its rows was built with it. -/
theorem Compiler.step_of_branch (h : (k.compile options inputs).1 = .ok c) {b : Block}
    (hb : b ∈ c.statement.blocks) {w : Branch} (hw : w ∈ b.branches) {s : Step}
    (hs : w.value = .step s) : s.operand.isFinite ∨
      ∃ r, .row r ∈ inputs ∧ b.column ≠ lookupColumn k.target options ∧
        r.get? b.column = some (.step s) := by
  obtain ⟨rows, hrows, -, -, hcolumns⟩ := Compiler.compile_eq_ok h
  obtain ⟨-, -, -, -, -, -, hblocks⟩ := compiledColumns_eq_ok hcolumns
  obtain ⟨htouched, hall⟩ := forall₂_blockOf hblocks
  have hcolumn : b.column ∈ touchedColumns (lookupColumn k.target options) rows := by
    rw [← htouched]
    exact List.mem_map_of_mem hb
  obtain ⟨⟨i, r'⟩, hmem, hrow, change, hchange, hbranch⟩ :=
    exists_left (forall₂_carriers hrows (hall b hb)) hw
  obtain ⟨value, hvalue, rfl⟩ := map_eq_ok.mp hbranch
  obtain ⟨r, hr, hstamped⟩ := bind_eq_ok.mp hrow
  subst hs
  rcases assigned_step hvalue with rfl | hfinite
  · have hgiven := (get?_stamped_iff hstamped _ (by simp)).mp hchange
    have hi := Input.eq_row_of_step hr hgiven
    have hinput : i ∈ inputs := (List.of_mem_zip (List.mem_filter.mp hmem).1).1
    exact .inr ⟨r, hi ▸ hinput, (mem_touchedColumns.mp hcolumn).1, hgiven⟩
  · exact .inl hfinite

/-- A step that a row was built with is among the branches of its column. -/
theorem Compiler.branch_of_step (h : (k.compile options inputs).1 = .ok c) {r : Row}
    (hr : .row r ∈ inputs) {column : String} (hne : column ≠ lookupColumn k.target options)
    {s : Step} (hs : r.get? column = some (.step s)) :
    ∃ b ∈ c.statement.blocks, b.column = column ∧ ∃ w ∈ b.branches, w.value = .step s := by
  obtain ⟨rows, hrows, -, -, hcolumns⟩ := Compiler.compile_eq_ok h
  obtain ⟨-, -, -, -, -, -, hblocks⟩ := compiledColumns_eq_ok hcolumns
  obtain ⟨r', hr', hstamped⟩ := exists_right (forall₂_stampedRows hrows) hr
  have hget := (get?_stamped_iff hstamped _ (by simp)).mpr hs
  have hcolumn : column ∈ touchedColumns (lookupColumn k.target options) rows := by
    rw [mem_touchedColumns]
    exact ⟨hne, r', hr', Ordered.mem_keys_of_get? hget⟩
  obtain ⟨b, hb, hblock⟩ := exists_right hblocks hcolumn
  obtain ⟨hbcolumn, hbranches⟩ := blockOf_eq_ok hblock
  have hcarried : (keyIn (lookupColumn k.target options) r', Change.step s) ∈
      carried (lookupColumn k.target options) column rows :=
    mem_carried.mpr ⟨r', hr', hget, rfl⟩
  obtain ⟨w, hw, hbranch⟩ := exists_right hbranches hcarried
  obtain ⟨value, hvalue, rfl⟩ := map_eq_ok.mp hbranch
  cases hvalue
  exact ⟨b, hb, hbcolumn, _, hw, rfl⟩

end Carriers

/-- The operand of a step is the one piece of a batch that reaches the statement without quotes. A
step stands there as its column, an operator and a numeral, which has brackets around it if it has a
minus, iff its operand is a number. Steps that are read from JSON always have one; so all steps of a
batch are written in this way iff no row was built with a step whose operand is infinite or no number
at all. -/
theorem Compiler.steps_are_numerals {k : Compiler} {options : Options} {inputs : List Input}
    {c : Compiled} (h : (k.compile options inputs).1 = .ok c) :
    (∀ b ∈ c.statement.blocks, ∀ w ∈ b.branches,
      c.statement.assignedChars b.column w.value <:+: c.statement.sql.toList ∧
      ∀ s, w.value = .step s →
        (IsStepText k.target.nameStyle b.column (c.statement.assignedChars b.column w.value) ↔
          s.operand.isFinite) ∧
        (s.operand.isFinite = false → ∃ r, .row r ∈ inputs ∧ r.get? b.column = some (.step s))) ∧
    ((∀ b ∈ c.statement.blocks, ∀ w ∈ b.branches, ∀ s, w.value = .step s →
        IsStepText k.target.nameStyle b.column (c.statement.assignedChars b.column w.value)) ↔
      ∀ r, .row r ∈ inputs → ∀ column s, column ≠ lookupColumn k.target options →
        r.get? column = some (.step s) → s.operand.isFinite) := by
  obtain ⟨rows, -, -, -, hcolumns⟩ := Compiler.compile_eq_ok h
  obtain ⟨-, -, -, -, hstyle, -, -⟩ := compiledColumns_eq_ok hcolumns
  have htext (column : String) (s : Step) :=
    c.statement.isStepText_iff column s
  rw [hstyle] at htext
  refine ⟨?_, ?_, ?_⟩
  · intro b hb w hw
    refine ⟨Statement.infix_chars hb hw, ?_⟩
    intro s hs
    rw [hs]
    refine ⟨htext b.column s, ?_⟩
    intro hfinite
    rcases Compiler.step_of_branch h hb hw hs with hnumber | ⟨r, hr, -, hget⟩
    · rw [hfinite] at hnumber
      cases hnumber
    · exact ⟨r, hr, hget⟩
  · intro hall r hr column s hne hs
    obtain ⟨b, hb, -, w, hw, hvalue⟩ := Compiler.branch_of_step h hr hne hs
    have hstep := hall b hb w hw s hvalue
    rw [hvalue] at hstep
    exact (htext b.column s).mp hstep
  · intro hall b hb w hw s hs
    rw [hs, htext]
    rcases Compiler.step_of_branch h hb hw hs with hfinite | ⟨r, hr, hne, hget⟩
    · exact hfinite
    · exact hall r hr b.column s hne hget

/-- A numeric text, and two numbers that a row was built with. -/
theorem Compiler.steps_are_numerals_of_three :
    ∃ c, ((Compiler.new (.ofTable "t" "id") ⟨⟨2024, 1, 1⟩, ⟨0, 0, 0, 0⟩⟩).compile .default
        [.json (.object [("id", .text "1"), ("n", .array [.text "-", .text " -2.5 "])]),
          .row (.ofList [("id", .scalar (.int 2)), ("n", .step ⟨.add, .int 7⟩),
            ("m", .step ⟨.multiply, .float (.finite true ⟨0, 0⟩)⟩)])]).1 = .ok c ∧
      (∀ b ∈ c.statement.blocks, ∀ w ∈ b.branches, ∀ s, w.value = .step s →
        IsStepText .backtick b.column (c.statement.assignedChars b.column w.value)) ∧
      c.statement.blocks.map (fun b => b.branches.map fun w =>
        String.ofList (c.statement.assignedChars b.column w.value)) =
          [["\x60n\x60-(-2.5)", "\x60n\x60+7"], ["\x60m\x60*(-0)"]] := by
  obtain ⟨c, hc, htexts⟩ := Option.map_eq_some_iff.mp (show
    (((Compiler.new (.ofTable "t" "id") ⟨⟨2024, 1, 1⟩, ⟨0, 0, 0, 0⟩⟩).compile .default
      [.json (.object [("id", .text "1"), ("n", .array [.text "-", .text " -2.5 "])]),
        .row (.ofList [("id", .scalar (.int 2)), ("n", .step ⟨.add, .int 7⟩),
          ("m", .step ⟨.multiply, .float (.finite true ⟨0, 0⟩)⟩)])]).1.toOption.map
      fun c => c.statement.blocks.map fun b => b.branches.map fun w =>
        String.ofList (c.statement.assignedChars b.column w.value)) =
      some [["\x60n\x60-(-2.5)", "\x60n\x60+7"], ["\x60m\x60*(-0)"]] by decide +kernel)
  have h := toOption_eq_some.mp hc
  refine ⟨c, h, (Compiler.steps_are_numerals h).2.mpr ?_, htexts⟩
  intro r hr column s _ hs
  have hrow : r = .ofList [("id", .scalar (.int 2)), ("n", .step ⟨.add, .int 7⟩),
      ("m", .step ⟨.multiply, .float (.finite true ⟨0, 0⟩)⟩)] := by simpa using hr
  subst hrow
  have hmem := Ordered.mem_of_mem_ofList (Ordered.mem_of_get? hs)
  simp only [List.mem_cons, Prod.mk.injEq, reduceCtorEq, and_false, false_or, Change.step.injEq,
    List.not_mem_nil, or_false] at hmem
  rcases hmem with ⟨-, rfl⟩ | ⟨-, rfl⟩
  · rfl
  · rfl

/-- An infinite operand of a row is written as a word. -/
theorem Compiler.infinite_step_is_no_numeral :
    ∃ c, ((Compiler.new (.ofTable "t" "id") ⟨⟨2024, 1, 1⟩, ⟨0, 0, 0, 0⟩⟩).compile .default
        [.row (.ofList [("id", .scalar (.text "1")),
          ("n", .step ⟨.add, .float (.infinite false)⟩)])]).1 = .ok c ∧
      ∃ b ∈ c.statement.blocks, ∃ w ∈ b.branches,
        w.value = .step ⟨.add, .float (.infinite false)⟩ ∧
        String.ofList (c.statement.assignedChars b.column w.value) = "\x60n\x60+inf" ∧
        ¬ IsStepText .backtick b.column (c.statement.assignedChars b.column w.value) := by
  have h : ((Compiler.new (.ofTable "t" "id") ⟨⟨2024, 1, 1⟩, ⟨0, 0, 0, 0⟩⟩).compile .default
      [.row (.ofList [("id", .scalar (.text "1")),
        ("n", .step ⟨.add, .float (.infinite false)⟩)])]).1 =
      .ok ⟨⟨"t", "id", .backtick, false,
        [⟨"n", [⟨"1", .step ⟨.add, .float (.infinite false)⟩⟩]⟩], ["1"]⟩, [.text "1"]⟩ := by
    rfl
  refine ⟨_, h, _, List.mem_singleton_self _, _, List.mem_singleton_self _, rfl, by decide, ?_⟩
  intro htext
  have hfinite := (Statement.isStepText_iff _ "n" ⟨.add, .float (.infinite false)⟩).mp htext
  cases hfinite

end Batch

end CaseUpdate
