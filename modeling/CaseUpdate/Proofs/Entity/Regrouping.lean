import CaseUpdate.Proofs.Entity.Metadata

namespace CaseUpdate.Entity

/-- Whether no key is given two values. -/
def Unrepeated (settings : List Setting) : Prop :=
  ((settings.filter fun s => s.value.isSome).map Setting.key).Nodup

instance (settings : List Setting) : Decidable (Unrepeated settings) :=
  inferInstanceAs (Decidable (List.Nodup _))

section Settings

variable {settings settings' : List Setting}

theorem Unrepeated.length_le_one (h : Unrepeated settings) (key : String) :
    (settings.filterMap (Setting.textFor? key)).length ≤ 1 := by
  have hcount := List.nodup_iff_count_le_one.mp h key
  rw [List.count, List.countP_map, List.countP_filter] at hcount
  rw [List.length_filterMap_eq_countP]
  refine le_trans (List.countP_mono_left ?_) hcount
  intro s _ hs
  obtain ⟨name, value⟩ := s
  rcases value with _ | (t | _)
  · cases hs
  · simpa [Setting.textFor?] using hs
  · cases hs

/-- A key that is given one value at most has the same one in any order. -/
theorem lastText_perm (hp : settings.Perm settings') (h : Unrepeated settings) (key : String) :
    lastText key settings = lastText key settings' := by
  have htexts := hp.filterMap (Setting.textFor? key)
  have hlength := h.length_le_one key
  unfold lastText
  match htext : settings.filterMap (Setting.textFor? key) with
  | [] =>
    rw [htext] at htexts
    rw [htexts.nil_eq]
  | [t] =>
    rw [htext] at htexts
    rw [List.perm_singleton.mp htexts.symm]
  | _ :: _ :: _ =>
    rw [htext] at hlength
    simp at hlength

theorem hasKey_perm (hp : settings.Perm settings') (key : String) :
    hasKey key settings = hasKey key settings' := hp.any_eq

theorem lastText_of_mem {key text : String} (h : Unrepeated settings)
    (hmem : ⟨key, some (.text text)⟩ ∈ settings) : lastText key settings = some text := by
  have hlength := h.length_le_one key
  have htext : text ∈ settings.filterMap (Setting.textFor? key) :=
    List.mem_filterMap.mpr ⟨_, hmem, by simp [Setting.textFor?]⟩
  obtain ⟨t, ht⟩ := List.length_eq_one_iff.mp
    (Nat.le_antisymm hlength (List.length_pos_of_mem htext))
  rw [ht, List.mem_singleton] at htext
  rw [lastText, ht, htext]
  rfl

theorem lastText_of_not_hasKey {key : String} (h : hasKey key settings = false) :
    lastText key settings = none := by
  have hnone : settings.filterMap (Setting.textFor? key) = [] := by
    rw [List.filterMap_eq_nil_iff]
    intro s hs
    have hkey : ¬ s.key = key := by simpa using List.any_eq_false.mp h s hs
    unfold Setting.textFor?
    split
    · rw [if_neg hkey]
    · rfl
  rw [lastText, hnone]
  rfl

end Settings

/-- Two fields with the same name and the same settings, in any order and in any lists. -/
structure FieldDecl.Regroups (f f' : FieldDecl) : Prop where
  name_eq : f'.name = f.name
  settings : f.settings.Perm f'.settings

/-- Two declarations with the same name, the same fields and the same settings, those of the record
and those of each field in any order and in any lists. -/
structure Declaration.Regroups (d d' : Declaration) : Prop where
  name_eq : d'.name = d.name
  kind_eq : d'.kind = d.kind
  lists : ∀ a ∈ d'.attributes, a.path = "model" → a.settings.isSome
  settings : d.settings.Perm d'.settings
  fields : List.Forall₂ FieldDecl.Regroups d.fields d'.fields

section Fields

variable {f f' : FieldDecl}

theorem FieldDecl.Regroups.fits (h : f.Regroups f') (hf : f.Fits) : f'.Fits := by
  intro s hs
  exact hf s (h.settings.mem_iff.mpr hs)

theorem FieldDecl.Regroups.column_eq (h : f.Regroups f') (hf : Unrepeated f.settings) :
    f.column = f'.column := by
  rw [column, column, h.name_eq, lastText_perm h.settings hf]

theorem FieldDecl.Regroups.isKey_eq (h : f.Regroups f') : f.isKey = f'.isKey :=
  hasKey_perm h.settings _

theorem FieldDecl.Regroups.isStructured_eq (h : f.Regroups f') :
    f.isStructured = f'.isStructured := hasKey_perm h.settings _

theorem Columns.taking_regrouped {fields fields' : List FieldDecl}
    (h : List.Forall₂ FieldDecl.Regroups fields fields')
    (hfields : ∀ f ∈ fields, Unrepeated f.settings) (cs : Columns) :
    cs.taking fields = cs.taking fields' := by
  induction h generalizing cs with
  | nil => rfl
  | @cons f f' fields fields' hf _ ih =>
    rw [List.forall_mem_cons] at hfields
    have hone : cs.taking [f] = cs.taking [f'] := by
      simp only [taking, List.map_cons, List.map_nil, List.filter_cons, List.filter_nil,
        List.find?_cons, List.find?_nil, hf.isKey_eq, hf.isStructured_eq]
      cases f'.isKey <;> cases f'.isStructured <;> simp [hf.column_eq hfields.1]
    rw [← taking_cons, hone, ih hfields.2, taking_cons]

theorem countP_isKey_regrouped {fields fields' : List FieldDecl}
    (h : List.Forall₂ FieldDecl.Regroups fields fields') :
    fields.countP FieldDecl.isKey = fields'.countP FieldDecl.isKey := by
  induction h with
  | nil => rfl
  | cons hf _ ih => rw [List.countP_cons, List.countP_cons, hf.isKey_eq, ih]

end Fields

namespace Declaration

/-- Whether no key is given two values, for the record or for one of its fields. -/
structure Unrepeated (d : Declaration) : Prop where
  settings : Entity.Unrepeated d.settings
  fields : ∀ f ∈ d.fields, Entity.Unrepeated f.settings

variable {d d' : Declaration}

theorem Regroups.accepted (h : d.Regroups d') (hd : d.Accepted) : d'.Accepted where
  lists := h.lists
  settings := fun s hs => hd.settings s (h.settings.mem_iff.mpr hs)
  kind := h.kind_eq.trans hd.kind
  fields := by
    intro f' hf'
    obtain ⟨f, hf, hregroups⟩ := exists_left h.fields hf'
    exact hregroups.fits (hd.fields f hf)
  keys := countP_isKey_regrouped h.fields ▸ hd.keys

theorem Regroups.metadata_eq (h : d.Regroups d') (hd : d.Unrepeated) :
    d.metadata = d'.metadata := by
  have htext := lastText_perm h.settings hd.settings
  have hstamp : d.updatedAt = d'.updatedAt := by
    rw [updatedAt, updatedAt, htext, hasKey_perm h.settings]
  have hcolumns := Columns.taking_regrouped h.fields hd.fields ⟨[], [], none⟩
  have hnames : d.fields.map FieldDecl.column = d'.fields.map FieldDecl.column :=
    congrArg Columns.names hcolumns
  have hcastable := congrArg Columns.castable hcolumns
  have hkey := congrArg Columns.primaryKey hcolumns
  simp only [Columns.taking, List.nil_append, Option.none_or] at hcastable hkey
  rw [metadata, metadata, htext, htext, hstamp, hnames, hcastable, hkey, h.name_eq]

/-- The order and the grouping of the settings of a declaration do not matter. If a declaration gives
no key two values, for the record or for one field, and it has a model, then every declaration with the
same settings in another order and in other lists has the same one. The stamped column is the one that
is named, wherever the flag for stamps stands, and the default one only if the flag stands and no
column is named. -/
theorem model_of_regrouped {m : Declared} (h : d.model = .ok m) (hd : d.Unrepeated) :
    (∀ d', d.Regroups d' → d'.model = .ok m) ∧
    (∀ column, ⟨"updated_at", some (.text column)⟩ ∈ d.settings → m.updatedAt = some column) ∧
    (hasKey "updated_at" d.settings = false →
      m.updatedAt =
        if hasKey "timestamps" d.settings then some Target.defaultStampColumn else none) := by
  obtain ⟨haccepted, rfl⟩ := model_eq_ok_iff.mp h
  refine ⟨?_, ?_, ?_⟩
  · intro d' hd'
    exact model_eq_ok_iff.mpr ⟨hd'.accepted haccepted, (hd'.metadata_eq hd).symm⟩
  · intro column hmem
    change d.updatedAt = some column
    rw [updatedAt, lastText_of_mem hd.settings hmem]
    rfl
  · intro hnone
    change d.updatedAt = _
    rw [updatedAt, lastText_of_not_hasKey hnone, Option.none_or]

/-- The flag for stamps behind the column that it gives way to, an empty list among the others, and
the settings of a field in two lists. -/
theorem model_of_regrouped_of_stamps :
    let table : Setting := ⟨"table", some (.text "posts")⟩
    let stamps : Setting := ⟨"timestamps", none⟩
    let updatedAt : Setting := ⟨"updated_at", some (.text "modified")⟩
    let key : Setting := ⟨"primary_key", none⟩
    let name : Setting := ⟨"name", some (.text "id")⟩
    let d : Declaration := ⟨"Post", .record, [⟨"model", some [stamps, updatedAt, table]⟩],
      [⟨"uuid", [⟨"column", some [key, name]⟩]⟩, ⟨"title", []⟩]⟩
    let d' : Declaration := ⟨"Post", .record, [⟨"model", some [updatedAt]⟩, ⟨"serde", none⟩,
      ⟨"model", some []⟩, ⟨"model", some [table, stamps]⟩],
      [⟨"uuid", [⟨"column", some [name]⟩, ⟨"column", some [key]⟩]⟩, ⟨"title", [⟨"column", none⟩]⟩]⟩
    let m : Declared := ⟨"posts", "id", ["id", "title", "modified"], [], some "modified", none⟩
    d.model = .ok m ∧ d.Unrepeated ∧ d.Regroups d' ∧ d'.model = .ok m ∧
      m.updatedAt = some "modified" := by
  intro table stamps updatedAt key name d d' m
  have hmodel : d.model = .ok m := by decide +kernel
  have hd : d.Unrepeated := ⟨by decide, by decide⟩
  have hregroups : d.Regroups d' := by
    refine ⟨rfl, rfl, by decide, by decide, ?_⟩
    exact .cons ⟨rfl, by decide⟩ (.cons ⟨rfl, by decide⟩ .nil)
  obtain ⟨hall, hnamed, -⟩ := model_of_regrouped hmodel hd
  exact ⟨hmodel, hd, hregroups, hall d' hregroups, hnamed "modified" (by decide)⟩

end Declaration

end CaseUpdate.Entity
