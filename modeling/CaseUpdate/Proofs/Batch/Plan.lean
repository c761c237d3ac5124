import CaseUpdate.Proofs.Batch.Blocks
import CaseUpdate.Proofs.Sql.Escaping

namespace CaseUpdate.Batch

/-- What a branch makes of its column: a text, NULL, or the result of a step. -/
inductive NewValue where
  | null
  | text (s : String)
  | step (s : Step)
deriving DecidableEq

/-- What a statement says: names and texts as they are, without quotes and escapes. -/
structure Plan where
  table : String
  lookup : String
  style : Sql.NameStyle
  /-- For each column its branches, each with its key. -/
  blocks : List (String × List (String × NewValue))
  keys : List String

/-- The text that a key is compared as. -/
def keyText (key : Scalar) : String := key.stored?.getD ""

def NewValue.ofScalar (s : Scalar) : NewValue :=
  match s.stored? with
  | some t => .text t
  | none => .null

/-- What a change makes of its column. A list that is no step never comes to be assigned. -/
def newValue : Change → NewValue
  | .scalar s => .ofScalar s
  | .step s => .step s
  | .document (.array items) =>
    match Step.ofItems items with
    | .ok s => .step s
    | .error _ => .null
  | .document (.object members) => .text (Sql.storedText (Json.compact (.object members)))
  | .document v => .ofScalar ((Scalar.ofJson? v).getD .null)

/-- What rows make of a column, each with its key. -/
def plannedBranches (lookup column : String) (rows : List Row) : List (String × NewValue) :=
  (carried lookup column rows).map fun g => (keyText g.1, newValue g.2)

/-- What the statement of rows says. -/
def planOf (target : Target) (lookup : String) (rows : List Row) : Plan where
  table := target.qualifiedTable
  lookup := lookup
  style := target.nameStyle
  blocks := (touchedColumns lookup rows).map fun column =>
    (column, plannedBranches lookup column rows)
  keys := rows.map fun r => keyText (keyIn lookup r)

/-- Whether an assigned value denotes what is planned for the column. -/
def Assigned.Denotes (style : Sql.LiteralStyle) : Assigned → NewValue → Prop
  | .null, .null => True
  | .literal body, .text s => style.Denotes body s
  | .step s, .step s' => s = s'
  | _, _ => False

def Branch.Denotes (style : Sql.LiteralStyle) (b : Branch) (p : String × NewValue) : Prop :=
  style.Denotes b.key p.1 ∧ b.value.Denotes style p.2

def Block.Denotes (style : Sql.LiteralStyle) (b : Block)
    (p : String × List (String × NewValue)) : Prop :=
  b.column = p.1 ∧ List.Forall₂ (Branch.Denotes style) b.branches p.2

/-- Whether a statement denotes a plan when its literals are read in a style. -/
structure Statement.Denotes (style : Sql.LiteralStyle) (st : Statement) (p : Plan) : Prop where
  table : st.table = p.table
  lookup : st.lookup = p.lookup
  style_eq : st.style = p.style
  blocks : List.Forall₂ (Block.Denotes style) st.blocks p.blocks
  keys : List.Forall₂ style.Denotes st.keys p.keys

theorem denotes_assignedScalar (style : Sql.LiteralStyle) (s : Scalar) :
    (assignedScalar style s).Denotes style (.ofScalar s) := by
  unfold assignedScalar NewValue.ofScalar
  rcases style.denotes_escapeScalar s with ⟨-, hbody, htext⟩ | ⟨body, text, hbody, htext, h⟩
  · rw [hbody, htext]
    trivial
  · rw [hbody, htext]
    exact h

theorem denotes_keyLiteral (target : Target) {key : Scalar} (hkey : key ≠ .null) :
    target.literalStyle.Denotes (keyLiteral target key) (keyText key) := by
  rcases target.literalStyle.denotes_escapeScalar key with ⟨hnull, -, -⟩ |
    ⟨body, text, hbody, htext, h⟩
  · exact absurd hnull hkey
  · rw [keyLiteral, keyText, hbody, htext]
    exact h

/-- The scalar that a change holds. -/
def scalar? : Change → Option Scalar
  | .scalar s => some s
  | .step _ => none
  | .document v => Scalar.ofJson? v

/-- The step that a change is, or that its list is read as. -/
def step? : Change → Option Step
  | .step s => some s
  | .document (.array items) => (Step.ofItems items).toOption
  | _ => none

/-- What a change can assign: its scalar, its step, or the compact text of its object. -/
theorem assigned_cases {target : Target} {column : String} {c : Change} {a : Assigned}
    (h : assigned target column c = .ok a) :
    (∃ s, scalar? c = some s ∧ a = assignedScalar target.literalStyle s) ∨
    (∃ s, step? c = some s ∧ a = .step s) ∨
    ∃ members, c = .document (.object members) ∧
      a = .literal (target.literalStyle.escapeText (Json.compact (.object members))) := by
  cases c with
  | scalar s => exact .inl ⟨s, rfl, (Except.ok.inj h).symm⟩
  | step s => exact .inr (.inl ⟨s, rfl, (Except.ok.inj h).symm⟩)
  | document v =>
    cases v with
    | array items =>
      simp only [assigned] at h
      cases hs : Step.ofItems items with
      | ok s =>
        rw [hs] at h
        exact .inr (.inl ⟨s, toOption_eq_some.mpr hs, (Except.ok.inj h).symm⟩)
      | error reason =>
        rw [hs] at h
        dsimp only at h
        split_ifs at h
    | object members =>
      simp only [assigned] at h
      split_ifs at h
      exact .inr (.inr ⟨members, rfl, (Except.ok.inj h).symm⟩)
    | null => exact .inl ⟨_, rfl, (Except.ok.inj h).symm⟩
    | bool b => exact .inl ⟨_, rfl, (Except.ok.inj h).symm⟩
    | number n => exact .inl ⟨_, rfl, (Except.ok.inj h).symm⟩
    | text s => exact .inl ⟨_, rfl, (Except.ok.inj h).symm⟩

theorem newValue_of_scalar? {c : Change} {s : Scalar} (h : scalar? c = some s) :
    newValue c = .ofScalar s := by
  cases c with
  | scalar s' =>
    cases h
    rfl
  | step s' => cases h
  | document v =>
    rw [scalar?] at h
    cases v with
    | array items => cases h
    | object members => cases h
    | _ => simp [newValue, h]

theorem newValue_of_step? {c : Change} {s : Step} (h : step? c = some s) : newValue c = .step s := by
  unfold step? at h
  split at h
  · cases h
    rfl
  · simp only [newValue, toOption_eq_some.mp h]
  · cases h

theorem denotes_assigned {target : Target} {column : String} {c : Change} {a : Assigned}
    (h : assigned target column c = .ok a) : a.Denotes target.literalStyle (newValue c) := by
  rcases assigned_cases h with ⟨s, hs, rfl⟩ | ⟨s, hs, rfl⟩ | ⟨members, rfl, rfl⟩
  · rw [newValue_of_scalar? hs]
    exact denotes_assignedScalar _ s
  · rw [newValue_of_step? hs]
    rfl
  · exact target.literalStyle.denotes_escapeText _

section Rows

variable {target : Target} {lookup : String} {rows : List Row}

/-- A block denotes what is planned for its column iff each of its branches does. -/
theorem block_denotes_iff {style : Sql.LiteralStyle} {column : String} {b : Block}
    (h : blockOf target lookup rows column = .ok b) :
    b.Denotes style (column, plannedBranches lookup column rows) ↔
      ∀ g ∈ carried lookup column rows, ∃ branch, branchOf target column g = .ok branch ∧
        branch.Denotes style (keyText g.1, newValue g.2) := by
  obtain ⟨hcolumn, hbranches⟩ := blockOf_eq_ok h
  rw [Block.Denotes, plannedBranches, forall₂_map_iff hbranches]
  exact and_iff_right hcolumn

/-- A statement denotes the plan of its rows, in any style, iff its keys and its branches do. -/
theorem statement_denotes_iff {style : Sql.LiteralStyle} {options : Options} {c : Compiled}
    (h : compiledColumns target options rows = .ok c) :
    c.statement.Denotes style (planOf target (lookupColumn target options) rows) ↔
      (∀ r ∈ rows, style.Denotes (keyLiteral target (keyIn (lookupColumn target options) r))
        (keyText (keyIn (lookupColumn target options) r))) ∧
      ∀ column ∈ touchedColumns (lookupColumn target options) rows,
        ∀ g ∈ carried (lookupColumn target options) column rows, ∃ branch,
          branchOf target column g = .ok branch ∧
            branch.Denotes style (keyText g.1, newValue g.2) := by
  obtain ⟨hk, hliterals, htable, hlookup, hstyle, -, hblocks⟩ := compiledColumns_eq_ok h
  have hkeys : List.Forall₂ style.Denotes c.statement.keys
      (planOf target (lookupColumn target options) rows).keys ↔
        ∀ r ∈ rows, style.Denotes (keyLiteral target (keyIn (lookupColumn target options) r))
          (keyText (keyIn (lookupColumn target options) r)) := by
    rw [hliterals, hk, planOf, List.forall₂_map_left_iff, List.forall₂_map_left_iff,
      List.forall₂_map_right_iff, List.forall₂_same]
  have hall : List.Forall₂ (Block.Denotes style) c.statement.blocks
      (planOf target (lookupColumn target options) rows).blocks ↔
        ∀ column ∈ touchedColumns (lookupColumn target options) rows,
          ∀ g ∈ carried (lookupColumn target options) column rows, ∃ branch,
            branchOf target column g = .ok branch ∧
              branch.Denotes style (keyText g.1, newValue g.2) := by
    rw [planOf, forall₂_map_iff hblocks]
    apply forall₂_congr
    intro column hcolumn
    obtain ⟨b, -, hb⟩ := exists_right hblocks hcolumn
    simp [hb, block_denotes_iff hb]
  constructor
  · intro hst
    exact ⟨hkeys.mp hst.keys, hall.mp hst.blocks⟩
  · rintro ⟨hst, hbranches⟩
    exact ⟨htable, hlookup, hstyle, hall.mpr hbranches, hkeys.mpr hst⟩

theorem exists_branchOf {options : Options} {c : Compiled}
    (h : compiledColumns target options rows = .ok c) {column : String}
    (hcolumn : column ∈ touchedColumns (lookupColumn target options) rows) {g : Scalar × Change}
    (hg : g ∈ carried (lookupColumn target options) column rows) :
    ∃ branch, branchOf target column g = .ok branch := by
  obtain ⟨-, -, -, -, -, -, hblocks⟩ := compiledColumns_eq_ok h
  obtain ⟨b, -, hb⟩ := exists_right hblocks hcolumn
  obtain ⟨branch, -, hbranch⟩ := exists_right (blockOf_eq_ok hb).2 hg
  exact ⟨branch, hbranch⟩

theorem denotes_planOf {options : Options} {c : Compiled}
    (hkeys : ∀ r ∈ rows, HasKey (lookupColumn target options) r)
    (h : compiledColumns target options rows = .ok c) :
    c.statement.Denotes target.literalStyle (planOf target (lookupColumn target options) rows) := by
  rw [statement_denotes_iff h]
  constructor
  · intro r hr
    exact denotes_keyLiteral target (hkeys r hr).2
  · intro column hcolumn g hg
    obtain ⟨branch, hbranch⟩ := exists_branchOf h hcolumn hg
    obtain ⟨value, hvalue, rfl⟩ := map_eq_ok.mp hbranch
    obtain ⟨r, hr, -, hkey⟩ := mem_carried.mp hg
    refine ⟨_, hbranch, ?_, denotes_assigned hvalue⟩
    rw [← hkey]
    exact denotes_keyLiteral target (hkeys r hr).2

/-- The rows that carry a touched column are not none. -/
theorem plannedBranches_ne_nil {column : String} (h : column ∈ touchedColumns lookup rows) :
    plannedBranches lookup column rows ≠ [] := by
  obtain ⟨-, r, hr, hcolumn⟩ := mem_touchedColumns.mp h
  obtain ⟨c, hc⟩ := Ordered.exists_get?_of_mem_keys hcolumn
  have hg : (keyIn lookup r, c) ∈ carried lookup column rows := mem_carried.mpr ⟨r, hr, hc, rfl⟩
  intro hnil
  rw [plannedBranches, List.map_eq_nil_iff] at hnil
  rw [hnil] at hg
  cases hg

end Rows

/-- Whether a plan has something in each of its lists. -/
structure Plan.Filled (p : Plan) : Prop where
  blocks : p.blocks ≠ []
  branches : ∀ b ∈ p.blocks, b.2 ≠ []
  keys : p.keys ≠ []

theorem filled_planOf {target : Target} {lookup : String} {rows : List Row}
    (h : touchedColumns lookup rows ≠ []) : (planOf target lookup rows).Filled := by
  refine ⟨?_, ?_, ?_⟩
  · rw [planOf, ne_eq, List.map_eq_nil_iff]
    exact h
  · intro b hb
    obtain ⟨column, hcolumn, rfl⟩ := List.mem_map.mp hb
    exact plannedBranches_ne_nil hcolumn
  · intro hnil
    rw [planOf, List.map_eq_nil_iff] at hnil
    apply h
    rw [hnil]
    rfl

end CaseUpdate.Batch
