import CaseUpdate.Entity.Declaration
import CaseUpdate.Proofs.Except

namespace CaseUpdate.Entity

namespace Setting

/-- The text that a setting gives for a key. -/
def textFor? (key : String) (s : Setting) : Option String :=
  match s.value with
  | some (.text t) => if s.key = key then some t else none
  | _ => none

/-- Whether a setting has one of these keys, with a text where one is called for and bare where
not. -/
def fits (texts flags : List String) (s : Setting) : Bool :=
  match s.value with
  | none => s.key ∈ flags
  | some (.text _) => s.key ∈ texts
  | some .other => false

end Setting

/-- The text that was given last for a key. -/
def lastText (key : String) (settings : List Setting) : Option String :=
  (settings.filterMap (Setting.textFor? key)).getLast?

def hasKey (key : String) (settings : List Setting) : Bool := settings.any fun s => s.key = key

/-- The settings in the lists under a path, in their order. -/
def settingsUnder (path : String) (attributes : List Attribute) : List Setting :=
  attributes.flatMap fun a => if a.path = path then a.settings.getD [] else []

@[simp] theorem lastText_nil (key : String) : lastText key [] = none := rfl

theorem lastText_cons (key : String) (s : Setting) (rest : List Setting) :
    lastText key (s :: rest) = (lastText key rest).or (s.textFor? key) := by
  rw [lastText, lastText, List.filterMap_cons]
  cases s.textFor? key with
  | none => rw [Option.or_none]
  | some t =>
    dsimp only
    rw [List.getLast?_cons]
    cases (rest.filterMap (Setting.textFor? key)).getLast? <;> rfl

@[simp] theorem hasKey_nil (key : String) : hasKey key [] = false := rfl

theorem hasKey_cons (key : String) (s : Setting) (rest : List Setting) :
    hasKey key (s :: rest) = (decide (s.key = key) || hasKey key rest) := rfl

theorem settingsUnder_cons (path : String) (a : Attribute) (rest : List Attribute) :
    settingsUnder path (a :: rest) = settingsUnder path [a] ++ settingsUnder path rest := by
  simp [settingsUnder]

namespace ModelSettings

def texts : List String := ["table", "updated_at", "date_format"]

def flags : List String := ["timestamps"]

/-- What settings make of those before them: the last text counts, and the default column is stamped
only where none is named. -/
def taking (m : ModelSettings) (settings : List Setting) : ModelSettings where
  table := (lastText "table" settings).getD m.table
  updatedAt := ((lastText "updated_at" settings).or m.updatedAt).or
    (if hasKey "timestamps" settings then some Target.defaultStampColumn else none)
  datePattern := (lastText "date_format" settings).or m.datePattern

theorem apply_eq_ok_iff (m : ModelSettings) (s : Setting) (m' : ModelSettings) :
    m.apply s = .ok m' ↔ s.fits texts flags ∧ m.taking [s] = m' := by
  obtain ⟨key, value⟩ := s
  unfold apply taking
  -- By the key, and by what stands after it: nothing, a text or another value.
  split_ifs <;> rcases value with _ | (t | _) <;>
    simp_all [Setting.text, Setting.flag, Setting.fits, texts, flags, lastText_cons,
      Setting.textFor?, hasKey_cons]

theorem foldl_taking (m : ModelSettings) (settings : List Setting) :
    settings.foldl (fun m s => m.taking [s]) m = m.taking settings := by
  induction settings generalizing m with
  | nil => simp [taking]
  | cons s rest ih =>
    rw [List.foldl_cons, ih]
    simp only [taking, lastText_cons, lastText_nil, Option.none_or, hasKey_cons, hasKey_nil,
      Bool.or_false, mk.injEq]
    refine ⟨?_, ?_, Option.or_assoc.symm⟩
    · cases lastText "table" rest <;> rfl
    · -- The default column that the first setting asks for gives way to a text in the rest.
      cases lastText "updated_at" rest <;> cases s.textFor? "updated_at" <;> cases m.updatedAt <;>
        by_cases h : s.key = "timestamps" <;> simp [h]

/-- An attribute under the path is read iff it is a list, and then setting by setting. -/
theorem applyAttribute_eq_ok_iff {m m' : ModelSettings} {a : Attribute} :
    m.applyAttribute a = .ok m' ↔
      (a.path = "model" → a.settings.isSome) ∧
      (settingsUnder "model" [a]).foldlM apply m = .ok m' := by
  unfold applyAttribute
  by_cases hpath : a.path = "model"
  · cases hsettings : a.settings <;> simp [settingsUnder, hpath, hsettings]
  · simp [settingsUnder, hpath, pure_eq_ok]

/-- The attributes of a record are read iff all those under the path are lists of settings that
fit. -/
theorem foldlM_applyAttribute_eq_ok_iff {m m' : ModelSettings} {attributes : List Attribute} :
    attributes.foldlM applyAttribute m = .ok m' ↔
      (∀ a ∈ attributes, a.path = "model" → a.settings.isSome) ∧
      (∀ s ∈ settingsUnder "model" attributes, s.fits texts flags) ∧
      m.taking (settingsUnder "model" attributes) = m' := by
  have hfold : attributes.foldlM applyAttribute m = .ok m' ↔
      (∀ a ∈ attributes, a.path = "model" → a.settings.isSome) ∧
      (settingsUnder "model" attributes).foldlM apply m = .ok m' := by
    induction attributes generalizing m with
    | nil => simp [settingsUnder]
    | cons a rest ih =>
      simp only [List.foldlM_cons, bind_eq_ok, applyAttribute_eq_ok_iff, ih,
        settingsUnder_cons "model" a rest, List.foldlM_append, List.forall_mem_cons]
      constructor
      · rintro ⟨m₁, ⟨ha, hm₁⟩, hrest, hm'⟩
        exact ⟨⟨ha, hrest⟩, m₁, hm₁, hm'⟩
      · rintro ⟨⟨ha, hrest⟩, m₁, hm₁, hm'⟩
        exact ⟨m₁, ⟨ha, hm₁⟩, hrest, hm'⟩
  rw [hfold, foldlM_eq_ok_iff apply_eq_ok_iff, foldl_taking]

end ModelSettings

namespace ColumnSettings

def texts : List String := ["name"]

def flags : List String := ["primary_key", "json"]

/-- What settings make of those before them. -/
def taking (m : ColumnSettings) (settings : List Setting) : ColumnSettings where
  name := (lastText "name" settings).or m.name
  primaryKey := m.primaryKey || hasKey "primary_key" settings
  json := m.json || hasKey "json" settings

theorem apply_eq_ok_iff (m : ColumnSettings) (s : Setting) (m' : ColumnSettings) :
    m.apply s = .ok m' ↔ s.fits texts flags ∧ m.taking [s] = m' := by
  obtain ⟨key, value⟩ := s
  unfold apply taking
  split_ifs <;> rcases value with _ | (t | _) <;>
    simp_all [Setting.text, Setting.flag, Setting.fits, texts, flags, lastText_cons,
      Setting.textFor?, hasKey_cons]

theorem foldl_taking (m : ColumnSettings) (settings : List Setting) :
    settings.foldl (fun m s => m.taking [s]) m = m.taking settings := by
  induction settings generalizing m with
  | nil => simp [taking]
  | cons s rest ih =>
    rw [List.foldl_cons, ih]
    simp only [taking, lastText_cons, lastText_nil, Option.none_or, hasKey_cons, hasKey_nil,
      Bool.or_false, Option.or_assoc, Bool.or_assoc]

/-- An attribute under the path is read setting by setting. -/
theorem applyAttribute_eq (m : ColumnSettings) (a : Attribute) :
    m.applyAttribute a = (settingsUnder "column" [a]).foldlM apply m := by
  unfold applyAttribute
  by_cases hpath : a.path = "column"
  · simp [settingsUnder, hpath]
  · simp only [settingsUnder, if_neg hpath, List.flatMap_cons, List.flatMap_nil]
    rfl

/-- The attributes of a field are read iff all settings in the lists under the path fit. -/
theorem foldlM_applyAttribute_eq_ok_iff {m m' : ColumnSettings} {attributes : List Attribute} :
    attributes.foldlM applyAttribute m = .ok m' ↔
      (∀ s ∈ settingsUnder "column" attributes, s.fits texts flags) ∧
      m.taking (settingsUnder "column" attributes) = m' := by
  have hfold : attributes.foldlM applyAttribute m =
      (settingsUnder "column" attributes).foldlM apply m := by
    induction attributes generalizing m with
    | nil => rfl
    | cons a rest ih =>
      rw [List.foldlM_cons, applyAttribute_eq, settingsUnder_cons "column" a rest,
        List.foldlM_append]
      simp only [ih]
  rw [hfold, foldlM_eq_ok_iff apply_eq_ok_iff, foldl_taking]

end ColumnSettings

end CaseUpdate.Entity
