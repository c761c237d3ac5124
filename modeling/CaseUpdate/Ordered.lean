namespace CaseUpdate.Ordered

variable {α : Type _}

/-- Sets a key of a map, which is a list of pairs in the order in which their keys first came: in
place where the key stands already, at the end otherwise. Keys never repeat. -/
def put (k : String) (v : α) : List (String × α) → List (String × α)
  | [] => [(k, v)]
  | e :: rest => if e.1 = k then (k, v) :: rest else e :: put k v rest

def get? (k : String) : List (String × α) → Option α
  | [] => none
  | e :: rest => if e.1 = k then some e.2 else get? k rest

def keys (m : List (String × α)) : List String := m.map Prod.fst

def erase (k : String) (m : List (String × α)) : List (String × α) :=
  m.filter (fun e => e.1 ≠ k)

/-- Sets the keys of a list of pairs one after another. -/
def ofList (entries : List (String × α)) : List (String × α) :=
  entries.foldl (fun m e => put e.1 e.2 m) []

@[simp] theorem keys_nil : keys ([] : List (String × α)) = [] := rfl

@[simp] theorem keys_cons (e : String × α) (m : List (String × α)) :
    keys (e :: m) = e.1 :: keys m := rfl

theorem keys_put (k : String) (v : α) (m : List (String × α)) :
    keys (put k v m) = if k ∈ keys m then keys m else keys m ++ [k] := by
  induction m with
  | nil => simp [put]
  | cons e rest ih =>
    by_cases h : e.1 = k
    · simp [put, h]
    · have hk : ¬ k = e.1 := fun hc => h hc.symm
      by_cases hm : k ∈ keys rest <;> simp [put, h, hk, ih, hm]

theorem nodup_keys_put {k : String} {v : α} {m : List (String × α)} (h : (keys m).Nodup) :
    (keys (put k v m)).Nodup := by
  rw [keys_put]
  split
  · exact h
  · rename_i hk
    refine List.nodup_append.mpr ⟨h, by simp, fun a ha b hb hab => hk ?_⟩
    rwa [← List.mem_singleton.mp hb, ← hab]

theorem get?_put (k k' : String) (v : α) (m : List (String × α)) :
    get? k' (put k v m) = if k = k' then some v else get? k' m := by
  induction m with
  | nil => simp [put, get?]
  | cons e rest ih =>
    by_cases h : e.1 = k
    · by_cases hk : k = k' <;> simp [put, get?, h, hk]
    · by_cases hk : e.1 = k'
      · have hne : ¬ k = k' := fun hc => h (hk.trans hc.symm)
        simp only [put, get?, if_neg h, if_pos hk, if_neg hne]
      · simp [put, get?, h, hk, ih]

theorem put_put (k : String) (v v' : α) (m : List (String × α)) :
    put k v' (put k v m) = put k v' m := by
  induction m with
  | nil => simp [put]
  | cons e rest ih => by_cases h : e.1 = k <;> simp [put, h, ih]

/-- Another key may be set before or after one that stands already. -/
theorem put_comm {k k' : String} {m : List (String × α)} (hne : k ≠ k') (h : k ∈ keys m)
    (v v' : α) : put k' v' (put k v m) = put k v (put k' v' m) := by
  induction m with
  | nil => cases h
  | cons e rest ih =>
    by_cases hk : e.1 = k
    · simp [put, hk, hne]
    · have hmem : k ∈ keys rest := (List.mem_cons.mp h).resolve_left fun he => hk he.symm
      by_cases hk' : e.1 = k'
      · simp [put, hk', hne.symm]
      · simp [put, hk, hk', ih hmem]

theorem erase_cons (k : String) (e : String × α) (m : List (String × α)) :
    erase k (e :: m) = if e.1 = k then erase k m else e :: erase k m := by
  by_cases h : e.1 = k <;> simp [erase, h]

theorem get?_erase (k k' : String) (m : List (String × α)) :
    get? k' (erase k m) = if k = k' then none else get? k' m := by
  induction m with
  | nil => simp [erase, get?]
  | cons e rest ih =>
    rw [erase_cons]
    by_cases h : e.1 = k
    · rw [if_pos h, ih, get?, h]
      by_cases hk : k = k'
      · rw [if_pos hk, if_pos hk]
      · rw [if_neg hk, if_neg hk, if_neg hk]
    · by_cases hk : e.1 = k'
      · have hne : ¬ k = k' := fun hc => h (hk.trans hc.symm)
        simp only [if_neg h, get?, if_pos hk, if_neg hne]
      · simp only [if_neg h, get?, if_neg hk, ih]

theorem exists_get?_of_mem_keys {k : String} {m : List (String × α)} (h : k ∈ keys m) :
    ∃ v, get? k m = some v := by
  induction m with
  | nil => simp at h
  | cons e rest ih =>
    by_cases he : e.1 = k
    · exact ⟨e.2, by rw [get?, if_pos he]⟩
    · have hk : ¬ k = e.1 := fun hc => he hc.symm
      rw [keys_cons, List.mem_cons] at h
      obtain ⟨v, hv⟩ := ih (h.resolve_left hk)
      exact ⟨v, by rw [get?, if_neg he, hv]⟩

theorem mem_of_get? {k : String} {v : α} {m : List (String × α)} (h : get? k m = some v) :
    (k, v) ∈ m := by
  induction m with
  | nil => cases h
  | cons e rest ih =>
    by_cases he : e.1 = k
    · rw [get?, if_pos he] at h
      rw [← he, ← Option.some.inj h]
      exact List.mem_cons_self
    · rw [get?, if_neg he] at h
      exact List.mem_cons_of_mem _ (ih h)

theorem get?_of_mem {e : String × α} {m : List (String × α)} (hm : (keys m).Nodup) (he : e ∈ m) :
    get? e.1 m = some e.2 := by
  induction m with
  | nil => cases he
  | cons d rest ih =>
    rw [keys_cons, List.nodup_cons] at hm
    rcases List.mem_cons.mp he with rfl | he
    · rw [get?, if_pos rfl]
    · have hne : ¬ d.1 = e.1 := fun hc => hm.1 (hc ▸ List.mem_map_of_mem he)
      rw [get?, if_neg hne, ih hm.2 he]

theorem mem_keys_of_get? {k : String} {v : α} {m : List (String × α)} (h : get? k m = some v) :
    k ∈ keys m :=
  List.mem_map_of_mem (mem_of_get? h)

theorem nodup_keys_ofList (entries : List (String × α)) : (keys (ofList entries)).Nodup := by
  suffices h : ∀ m : List (String × α), (keys m).Nodup →
      (keys (entries.foldl (fun m e => put e.1 e.2 m) m)).Nodup from h [] (by simp)
  induction entries with
  | nil => exact fun _ h => h
  | cons e rest ih => exact fun m h => ih _ (nodup_keys_put h)

theorem put_of_not_mem {k : String} {v : α} {m : List (String × α)} (h : k ∉ keys m) :
    put k v m = m ++ [(k, v)] := by
  induction m with
  | nil => rfl
  | cons e rest ih =>
    simp only [keys_cons, List.mem_cons, not_or] at h
    have hne : ¬ e.1 = k := fun hc => h.1 hc.symm
    rw [put, if_neg hne, ih h.2, List.cons_append]

theorem ofList_eq_self {entries : List (String × α)} (h : (keys entries).Nodup) :
    ofList entries = entries := by
  suffices hs : ∀ m : List (String × α), (keys (m ++ entries)).Nodup →
      entries.foldl (fun m e => put e.1 e.2 m) m = m ++ entries from hs [] h
  clear h
  induction entries with
  | nil => simp
  | cons e rest ih =>
    intro m hm
    have hk : e.1 ∉ keys m := by
      simp only [keys, List.map_append, List.map_cons] at hm
      have hd := (List.nodup_append.mp hm).2.2
      exact fun he => hd e.1 he e.1 (by simp) rfl
    have happ : m ++ e :: rest = m ++ [e] ++ rest := by simp
    rw [List.foldl_cons, put_of_not_mem hk, happ]
    rw [happ] at hm
    exact ih (m ++ [e]) hm

theorem mem_put {e : String × α} {k : String} {v : α} {m : List (String × α)}
    (h : e ∈ put k v m) : e = (k, v) ∨ e ∈ m := by
  induction m with
  | nil => exact .inl (List.mem_singleton.mp h)
  | cons d rest ih =>
    rw [put] at h
    split at h
    · rcases List.mem_cons.mp h with he | he
      · exact .inl he
      · exact .inr (List.mem_cons_of_mem _ he)
    · rcases List.mem_cons.mp h with he | he
      · exact .inr (he ▸ List.mem_cons_self)
      · exact (ih he).imp id (List.mem_cons_of_mem _)

theorem mem_of_mem_ofList {e : String × α} {entries : List (String × α)} (h : e ∈ ofList entries) :
    e ∈ entries := by
  suffices hs : ∀ m : List (String × α), e ∈ entries.foldl (fun m e => put e.1 e.2 m) m →
      e ∈ m ∨ e ∈ entries by simpa using hs [] h
  clear h
  induction entries with
  | nil => exact fun _ h => .inl h
  | cons d rest ih =>
    intro m hm
    rcases ih (put d.1 d.2 m) hm with h | h
    · exact (mem_put h).elim (fun he => .inr (he ▸ List.mem_cons_self)) .inl
    · exact .inr (List.mem_cons_of_mem _ h)

end CaseUpdate.Ordered
