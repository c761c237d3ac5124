import CaseUpdate.Proofs.Entity.Settings

namespace CaseUpdate.Entity

namespace FieldDecl

def settings (f : FieldDecl) : List Setting := settingsUnder "column" f.attributes

/-- The column of a field: the name that is given for it, or its own. -/
def column (f : FieldDecl) : String := (lastText "name" f.settings).getD f.name

def isKey (f : FieldDecl) : Bool := hasKey "primary_key" f.settings

/-- Whether the column of a field holds structured values. -/
def isStructured (f : FieldDecl) : Bool := hasKey "json" f.settings

def Fits (f : FieldDecl) : Prop :=
  ∀ s ∈ f.settings, s.fits ColumnSettings.texts ColumnSettings.flags

end FieldDecl

namespace Columns

/-- The columns with those of more fields. -/
def taking (cs : Columns) (fields : List FieldDecl) : Columns where
  names := cs.names ++ fields.map FieldDecl.column
  castable := cs.castable ++ (fields.filter FieldDecl.isStructured).map FieldDecl.column
  primaryKey := cs.primaryKey.or ((fields.find? FieldDecl.isKey).map FieldDecl.column)

theorem taking_nil (cs : Columns) : cs.taking [] = cs := by
  simp [taking]

theorem taking_cons (cs : Columns) (f : FieldDecl) (rest : List FieldDecl) :
    (cs.taking [f]).taking rest = cs.taking (f :: rest) := by
  cases hkey : f.isKey <;> cases hjson : f.isStructured <;>
    simp [taking, hkey, hjson]

/-- A field is added iff its settings fit, and it is not the second one that is marked. -/
theorem add_eq_ok_iff {cs cs' : Columns} {f : FieldDecl} :
    cs.add f = .ok cs' ↔
      f.Fits ∧ (f.isKey → cs.primaryKey = none) ∧ cs.taking [f] = cs' := by
  have hread (s : ColumnSettings) :
      f.attributes.foldlM ColumnSettings.applyAttribute ⟨none, false, false⟩ = .ok s ↔
        f.Fits ∧ ⟨lastText "name" f.settings, f.isKey, f.isStructured⟩ = s := by
    rw [ColumnSettings.foldlM_applyAttribute_eq_ok_iff]
    simp [ColumnSettings.taking, FieldDecl.Fits, FieldDecl.isKey, FieldDecl.isStructured,
      FieldDecl.settings]
  have hadd (s : ColumnSettings)
      (hs : ⟨lastText "name" f.settings, f.isKey, f.isStructured⟩ = s) :
      (if s.primaryKey && cs.primaryKey.isSome then .error .secondPrimaryKey
        else .ok {
          names := cs.names ++ [s.name.getD f.name]
          castable := if s.json then cs.castable ++ [s.name.getD f.name] else cs.castable
          primaryKey := if s.primaryKey then some (s.name.getD f.name) else cs.primaryKey } :
        Except Error Columns) = .ok cs' ↔
      (f.isKey → cs.primaryKey = none) ∧ cs.taking [f] = cs' := by
    subst hs
    cases hkey : f.isKey <;> cases hjson : f.isStructured <;> cases hfirst : cs.primaryKey <;>
      simp [taking, hkey, hjson, hfirst, FieldDecl.column]
  unfold add
  simp only [bind_eq_ok, hread]
  constructor
  · rintro ⟨s, ⟨hfits, hs⟩, h⟩
    exact ⟨hfits, (hadd s hs).mp h⟩
  · rintro ⟨hfits, h⟩
    exact ⟨_, ⟨hfits, rfl⟩, (hadd _ rfl).mpr h⟩

/-- Fields are added iff their settings fit, and at most one of them is marked. -/
theorem foldlM_add_eq_ok_iff {cs cs' : Columns} {fields : List FieldDecl} :
    fields.foldlM add cs = .ok cs' ↔
      (∀ f ∈ fields, f.Fits) ∧
      fields.countP FieldDecl.isKey ≤ (if cs.primaryKey.isSome then 0 else 1) ∧
      cs.taking fields = cs' := by
  induction fields generalizing cs with
  | nil =>
    rw [List.foldlM_nil, pure_eq_ok, taking_nil]
    simp
  | cons f rest ih =>
    have hmarked : (f.isKey → cs.primaryKey = none) ∧
        rest.countP FieldDecl.isKey ≤ (if (cs.taking [f]).primaryKey.isSome then 0 else 1) ↔
        (f :: rest).countP FieldDecl.isKey ≤ (if cs.primaryKey.isSome then 0 else 1) := by
      rw [List.countP_cons]
      cases hkey : f.isKey <;> cases hfirst : cs.primaryKey <;> simp [taking, hkey, hfirst]
    simp only [List.foldlM_cons, bind_eq_ok, add_eq_ok_iff, ih, List.forall_mem_cons, ← hmarked]
    constructor
    · rintro ⟨_, ⟨hf, hkey, rfl⟩, hrest, hcount, h⟩
      exact ⟨⟨hf, hrest⟩, ⟨hkey, hcount⟩, taking_cons cs f rest ▸ h⟩
    · rintro ⟨⟨hf, hrest⟩, ⟨hkey, hcount⟩, h⟩
      exact ⟨_, ⟨hf, hkey, rfl⟩, hrest, hcount, (taking_cons cs f rest).trans h⟩

end Columns

namespace Declaration

def settings (d : Declaration) : List Setting := settingsUnder "model" d.attributes

/-- When a declaration has a model: all its attributes are lists of settings that fit, it is a record
with named fields, the settings of the fields fit, and at most one field is marked as the primary
key. -/
structure Accepted (d : Declaration) : Prop where
  lists : ∀ a ∈ d.attributes, a.path = "model" → a.settings.isSome
  settings : ∀ s ∈ d.settings, s.fits ModelSettings.texts ModelSettings.flags
  kind : d.kind = .record
  fields : ∀ f ∈ d.fields, f.Fits
  keys : d.fields.countP FieldDecl.isKey ≤ 1

def updatedAt (d : Declaration) : Option String :=
  (lastText "updated_at" d.settings).or
    (if hasKey "timestamps" d.settings then some Target.defaultStampColumn else none)

/-- What the settings of a declaration say, each by itself. -/
def metadata (d : Declaration) : Declared where
  table := (lastText "table" d.settings).getD (snakeCase d.name)
  primaryKey := ((d.fields.find? FieldDecl.isKey).map FieldDecl.column).getD defaultPrimaryKey
  columns := stampedColumns (d.fields.map FieldDecl.column) d.updatedAt
  castable := (d.fields.filter FieldDecl.isStructured).map FieldDecl.column
  updatedAt := d.updatedAt
  datePattern := lastText "date_format" d.settings

theorem model_eq_ok_iff {d : Declaration} {m : Declared} :
    d.model = .ok m ↔ d.Accepted ∧ d.metadata = m := by
  have hmodel (s : ModelSettings) :
      d.attributes.foldlM ModelSettings.applyAttribute ⟨snakeCase d.name, none, none⟩ = .ok s ↔
        (∀ a ∈ d.attributes, a.path = "model" → a.settings.isSome) ∧
        (∀ s ∈ d.settings, s.fits ModelSettings.texts ModelSettings.flags) ∧
        ⟨(lastText "table" d.settings).getD (snakeCase d.name), d.updatedAt,
          lastText "date_format" d.settings⟩ = s := by
    rw [ModelSettings.foldlM_applyAttribute_eq_ok_iff, ModelSettings.taking, Option.or_none,
      Option.or_none]
    rfl
  have hkind : d.kind.check = .ok () ↔ d.kind = .record := by
    cases d.kind <;> simp [Kind.check]
  have hcolumns (cs : Columns) : d.fields.foldlM Columns.add ⟨[], [], none⟩ = .ok cs ↔
      (∀ f ∈ d.fields, f.Fits) ∧ d.fields.countP FieldDecl.isKey ≤ 1 ∧
        Columns.taking ⟨[], [], none⟩ d.fields = cs := Columns.foldlM_add_eq_ok_iff
  unfold model
  simp only [bind_eq_ok, hmodel, hcolumns, pure_eq_ok]
  constructor
  · rintro ⟨_, ⟨hlists, hsettings, rfl⟩, _, hrecord, _, ⟨hfields, hkeys, rfl⟩, rfl⟩
    exact ⟨⟨hlists, hsettings, hkind.mp hrecord, hfields, hkeys⟩, rfl⟩
  · rintro ⟨⟨hlists, hsettings, hrecord, hfields, hkeys⟩, rfl⟩
    exact ⟨_, ⟨hlists, hsettings, rfl⟩, (), hkind.mpr hrecord, _, ⟨hfields, hkeys, rfl⟩, rfl⟩

end Declaration

end CaseUpdate.Entity
