import Mathlib
import CaseUpdate.Database.Basic

namespace CaseUpdate.Database

open Sql (Name Expr When Assignment Update)

/-- The cells of a row are those of its columns, no two of which have the same name. -/
structure Table.WellFormed (t : Table) : Prop where
  names : (t.columns.map nameKey).Nodup
  lengths : ∀ row ∈ t.rows, row.length = t.columns.length

theorem Table.WellFormed.nodup {t : Table} (h : t.WellFormed) : t.columns.Nodup :=
  h.names.of_map

section Cells

variable {columns : List String} {row : List Cell}

theorem exists_cell? (hlen : row.length = columns.length) {c : String} (hc : c ∈ columns) :
    ∃ v, cell? columns row c = some v := by
  induction columns generalizing row with
  | nil => simp at hc
  | cons d columns ih =>
    cases row with
    | nil => simp at hlen
    | cons v row =>
      by_cases h : d = c
      · exact ⟨v, by rw [cell?, if_pos h]⟩
      · obtain ⟨w, hw⟩ := ih (by simpa using hlen) (by simpa [Ne.symm h] using hc)
        exact ⟨w, by rw [cell?, if_neg h, hw]⟩

theorem length_setCell (name : String) (new : Cell) :
    (setCell columns row name new).length = row.length := by
  induction columns generalizing row with
  | nil => rfl
  | cons d columns ih => cases row <;> simp [setCell, ih]

theorem cell?_setCell (name : String) (new : Cell) (c : String) :
    cell? columns (setCell columns row name new) c =
      if c = name then (cell? columns row c).map fun _ => new else cell? columns row c := by
  induction columns generalizing row with
  | nil => simp [cell?]
  | cons d columns ih =>
    cases row with
    | nil => simp [cell?, setCell]
    | cons v row =>
      by_cases hd : d = c
      · by_cases hc : c = name
        · simp [cell?, setCell, hd, hc]
        · have hdn : ¬ d = name := fun h => hc (hd.symm.trans h)
          simp [cell?, setCell, hd, hc]
      · simp [cell?, setCell, hd, ih]

/-- A row is known by the cells of its columns. -/
theorem row_ext {row' : List Cell} (hn : columns.Nodup) (hlen : row.length = columns.length)
    (hlen' : row'.length = columns.length)
    (h : ∀ c ∈ columns, cell? columns row c = cell? columns row' c) : row = row' := by
  induction columns generalizing row row' with
  | nil =>
    rw [List.length_nil, List.length_eq_zero_iff] at hlen hlen'
    rw [hlen, hlen']
  | cons d columns ih =>
    obtain ⟨v, row, rfl⟩ := List.exists_cons_of_length_eq_add_one hlen
    obtain ⟨w, row', rfl⟩ := List.exists_cons_of_length_eq_add_one hlen'
    obtain ⟨hd, hrest⟩ := List.nodup_cons.mp hn
    have hvw : v = w := by
      have hfirst := h d (by simp)
      rw [cell?, cell?, if_pos rfl, if_pos rfl] at hfirst
      exact Option.some.inj hfirst
    have hrows : row = row' := by
      apply ih hrest (by simpa using hlen) (by simpa using hlen')
      intro c hc
      have hne : ¬ d = c := fun hdc => hd (hdc ▸ hc)
      have hcell := h c (List.mem_cons_of_mem _ hc)
      rwa [cell?, cell?, if_neg hne, if_neg hne] at hcell
    rw [hvw, hrows]

theorem cell?_map (f : String → Cell) {c : String} (hc : c ∈ columns) :
    cell? columns (columns.map f) c = some (f c) := by
  suffices h : ∀ l : List String, c ∈ l → cell? l (l.map f) c = some (f c) from h columns hc
  intro l hl
  induction l with
  | nil => simp at hl
  | cons d l ih =>
    by_cases h : d = c
    · rw [List.map_cons, cell?, if_pos h, h]
    · rw [List.map_cons, cell?, if_neg h]
      exact ih (by simpa [Ne.symm h] using hl)

theorem nameValue_of_cell? {n : Name} {v : Cell} (h : cell? columns row n.text = some v) :
    nameValue columns row n = v := by rw [nameValue, h, Option.getD_some]

end Cells

section Assignments

variable {columns : List String} {row : List Cell}

theorem length_foldl_setCell {α : Type} (f : α → String) (g : α → Cell) (as : List α) :
    (as.foldl (fun new a => setCell columns new (f a) (g a)) row).length = row.length := by
  induction as generalizing row with
  | nil => rfl
  | cons a as ih => rw [List.foldl_cons, ih, length_setCell]

theorem length_assignAll (arithmetic : Arithmetic) (as : List Assignment) :
    (assignAll arithmetic columns row as).length = row.length := length_foldl_setCell _ _ as

/-- After assignments to different columns, an assigned cell has its new value, and every other cell
is as it was. -/
theorem cell?_foldl_setCell {α : Type} (f : α → String) (g : α → Cell) {as : List α}
    (hn : (as.map f).Nodup) (hlen : row.length = columns.length) {c : String} (hc : c ∈ columns) :
    cell? columns (as.foldl (fun new a => setCell columns new (f a) (g a)) row) c =
      match as.find? fun a => f a = c with
      | some a => some (g a)
      | none => cell? columns row c := by
  induction as generalizing row with
  | nil => rfl
  | cons a as ih =>
    obtain ⟨ha, hrest⟩ := List.nodup_cons.mp hn
    have hlen' : (setCell columns row (f a) (g a)).length = columns.length := by
      rw [length_setCell, hlen]
    rw [List.foldl_cons, ih hrest hlen', cell?_setCell]
    by_cases hac : f a = c
    · -- The columns differ, so that no later assignment reaches this cell.
      have hnone : as.find? (fun b => f b = c) = none := by
        rw [List.find?_eq_none]
        intro b hb hbc
        apply ha
        rw [hac, ← of_decide_eq_true hbc]
        exact List.mem_map_of_mem hb
      obtain ⟨v, hv⟩ := exists_cell? hlen hc
      rw [hnone, List.find?_cons_of_pos (by simpa using hac), if_pos hac.symm, hv]
      rfl
    · rw [List.find?_cons_of_neg (by simpa using hac), if_neg (Ne.symm hac)]

/-- The first branch with the key of a row decides, and without one the cell keeps its value. -/
theorem caseValue_eq (arithmetic : Arithmetic) {key : String} {otherwise : Name}
    {branches : List When}
    (h : ∀ w ∈ branches, nameValue columns row w.lookup = some key) :
    caseValue arithmetic columns row otherwise branches =
      match branches.find? fun w => w.key = key with
      | some w => (exprValue arithmetic columns row w.value).toCell
      | none => nameValue columns row otherwise := by
  induction branches with
  | nil => rfl
  | cons w branches ih =>
    have hw := h w (by simp)
    rw [caseValue, hw]
    by_cases hk : w.key = key
    · rw [if_pos (by rw [hk]), List.find?_cons_of_pos (by simpa using hk)]
    · have hne : ¬ some key = some w.key := fun he => hk (Option.some.inj he).symm
      rw [if_neg hne, List.find?_cons_of_neg (by simpa using hk)]
      exact ih fun d hd => h d (by simp [hd])

end Assignments

section Names

/-- Where keys differ, an element is found by its key. -/
theorem find?_of_nodup {α β : Type} [DecidableEq β] {key : α → β} {l : List α}
    (hn : (l.map key).Nodup) {a : α} (ha : a ∈ l) :
    (l.find? fun b => key b = key a) = some a := by
  induction l with
  | nil => simp at ha
  | cons b l ih =>
    obtain ⟨hb, hrest⟩ := List.nodup_cons.mp hn
    rcases List.mem_cons.mp ha with rfl | ha
    · rw [List.find?_cons_of_pos (by simp)]
    · have hne : ¬ key b = key a := fun he => hb (he ▸ List.mem_map_of_mem ha)
      rw [List.find?_cons_of_neg (by simpa using hne)]
      exact ih hrest ha

/-- What is promised of a database: no two of its tables have the same name, and all are well
formed. -/
structure WellFormed (db : Database) : Prop where
  names : (db.tables.map fun t => nameKey t.name).Nodup
  tables : ∀ t ∈ db.tables, t.WellFormed

theorem WellFormed.table? {db : Database} (h : db.WellFormed) {t : Table} (ht : t ∈ db.tables) :
    db.table? t.name = some t := find?_of_nodup h.names ht

variable {columns : List String}

theorem resolve_of_mem (hn : (columns.map nameKey).Nodup) {n : Name} (hc : n.text ∈ columns) :
    resolve columns n = n := by rw [resolve, find?_of_nodup hn hc]

theorem resolve_of_not_mem {n : Name} (hc : nameKey n.text ∉ columns.map nameKey) :
    resolve columns n = n := by
  have hnone : (columns.find? fun c => nameKey c = nameKey n.text) = none := by
    rw [List.find?_eq_none]
    intro c hmem hkey
    exact hc (List.mem_map.mpr ⟨c, hmem, of_decide_eq_true hkey⟩)
  rw [resolve, hnone]

theorem reads_of_mem {n : Name} (hc : n.text ∈ columns) : reads columns n := by
  simp [reads, hc]

/-- An update whose names are resolved already is that of its table. -/
theorem run_eq_update {arithmetic : Arithmetic} {db : Database} {u : Update} {t : Table}
    (ht : db.table? u.table.text = some t) (hresolve : u.mapNames (resolve t.columns) = u)
    (hnamed : isWellNamed u t.columns) :
    db.run arithmetic u =
      some (db.replace (t.update arithmetic u).1, (t.update arithmetic u).2) := by
  rw [run, ht]
  dsimp only
  rw [hresolve, if_pos hnamed]

end Names

end CaseUpdate.Database
