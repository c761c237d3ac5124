import CaseUpdate.Proofs.Batch.Blocks

namespace CaseUpdate.Batch

open Calendar (Instant)

/-- Whether an input gives a JSON value for a column. A text or an integer that is set in a row is
given as well. -/
def Input.Gives (column : String) (i : Input) (v : Json) : Prop :=
  ∃ r, i.toRow = .ok r ∧ r.get? column = some (Change.ofJson v)

theorem get?_map_ofJson (column : String) (members : List (String × Json)) :
    Ordered.get? column (members.map fun m => (m.1, Change.ofJson m.2)) =
      (Ordered.get? column members).map Change.ofJson := by
  induction members with
  | nil => rfl
  | cons m rest ih =>
    rw [List.map_cons, Ordered.get?, Ordered.get?]
    split_ifs
    · rfl
    · exact ih

/-- A JSON object gives its members. -/
theorem Input.gives_of_object {column : String} {members : List (String × Json)} {v : Json}
    (hkeys : (Ordered.keys members).Nodup) (hv : Ordered.get? column members = some v) :
    (Input.json (.object members)).Gives column v := by
  have hmap : Ordered.keys (members.map fun m => (m.1, Change.ofJson m.2)) =
      Ordered.keys members := by
    rw [Ordered.keys, List.map_map]
    rfl
  have hentries : (Row.ofMembers members).entries = members.map fun m => (m.1, Change.ofJson m.2) :=
    Ordered.ofList_eq_self (hmap ▸ hkeys)
  refine ⟨.ofMembers members, rfl, ?_⟩
  rw [Row.get?, hentries, get?_map_ofJson, hv]
  rfl

section Stamps

variable {target : Target} {now : Instant} {column : String} {inputs : List Input}
  {rows : List Row}

theorem forall₂_stampedRows (h : stampedRows target now inputs = .ok rows) :
    List.Forall₂ (fun i r => (i.toRow >>= stamped target now) = .ok r) inputs rows := by
  obtain ⟨inputRows, hrows, hstamped⟩ := bind_eq_ok.mp h
  rw [mapM_eq_ok] at hrows hstamped
  clear h
  induction hrows generalizing rows with
  | nil =>
    cases hstamped
    exact .nil
  | cons hrow _ ih =>
    cases hstamped with
    | cons hr hrest =>
      refine .cons ?_ (ih hrest)
      rw [hrow, ok_bind]
      exact hr

/-- What is given for a column is still there in the row with its stamp, but for NULL. -/
theorem Input.Gives.get?_stamped {i : Input} {r : Row} {v : Json} (h : i.Gives column v)
    (hnull : Change.ofJson v ≠ .scalar .null) (hr : (i.toRow >>= stamped target now) = .ok r) :
    r.get? column = some (Change.ofJson v) := by
  obtain ⟨r', hr', hget⟩ := h
  rw [hr', ok_bind] at hr
  exact Batch.get?_stamped hget hnull hr

/-- The inputs and rows that carry a column. -/
def carriers (column : String) (inputs : List Input) (rows : List Row) : List (Input × Row) :=
  (inputs.zip rows).filter fun p => (p.2.get? column).isSome

/-- The branches in the block of a column are those of its carriers. -/
theorem forall₂_carriers {lookup : String} {b : Block}
    (hrows : stampedRows target now inputs = .ok rows)
    (hb : blockOf target lookup rows column = .ok b) :
    List.Forall₂ (fun p branch => (p.1.toRow >>= stamped target now) = .ok p.2 ∧
        ∃ c, p.2.get? column = some c ∧ branchOf target column (keyIn lookup p.2, c) = .ok branch)
      (carriers column inputs rows) b.branches := by
  obtain ⟨-, hbranches⟩ := blockOf_eq_ok hb
  have hstamped := forall₂_stampedRows hrows
  clear hrows hb
  generalize b.branches = branches at hbranches ⊢
  induction hstamped generalizing branches with
  | nil =>
    cases hbranches
    exact .nil
  | @cons i r inputs rows hr _ ih =>
    rw [carried, List.filterMap_cons] at hbranches
    rw [carriers, List.zip_cons_cons]
    cases hc : r.get? column with
    | none =>
      rw [hc] at hbranches
      rw [List.filter_cons_of_neg (by simp [hc])]
      exact ih _ hbranches
    | some c =>
      rw [hc] at hbranches
      obtain ⟨branch, rest, hbranch, hrest, rfl⟩ := List.forall₂_cons_left_iff.mp hbranches
      rw [List.filter_cons_of_pos (by simp [hc])]
      exact .cons ⟨hr, c, hc, hbranch⟩ (ih _ hrest)

end Stamps

end CaseUpdate.Batch
