import CaseUpdate.Proofs.Json.Quotes
import CaseUpdate.Proofs.Json.Reals

namespace CaseUpdate.Json

mutual

/-- How many containers stand in one another. -/
def depth : Json → Nat
  | .array items => depthOfItems items + 1
  | .object members => depthOfMembers members + 1
  | _ => 0

def depthOfItems : List Json → Nat
  | [] => 0
  | v :: rest => max (depth v) (depthOfItems rest)

def depthOfMembers : List (String × Json) → Nat
  | [] => 0
  | (_, v) :: rest => max (depth v) (depthOfMembers rest)

end

mutual

/-- The numbers in a value. -/
def numbers : Json → List Number
  | .number n => [n]
  | .array items => numbersOfItems items
  | .object members => numbersOfMembers members
  | _ => []

def numbersOfItems : List Json → List Number
  | [] => []
  | v :: rest => numbers v ++ numbersOfItems rest

def numbersOfMembers : List (String × Json) → List Number
  | [] => []
  | (_, v) :: rest => numbers v ++ numbersOfMembers rest

end

mutual

/-- A value with a function applied to its numbers, provided that each of them has a result. -/
def mapNumbers (f : Number → Option Number) : Json → Option Json
  | .number n => (f n).map .number
  | .array items => (mapNumbersOfItems f items).map .array
  | .object members => (mapNumbersOfMembers f members).map .object
  | v => some v

def mapNumbersOfItems (f : Number → Option Number) : List Json → Option (List Json)
  | [] => some []
  | v :: rest => do
    let w ← mapNumbers f v
    let ws ← mapNumbersOfItems f rest
    return w :: ws

def mapNumbersOfMembers (f : Number → Option Number) :
    List (String × Json) → Option (List (String × Json))
  | [] => some []
  | (k, v) :: rest => do
    let w ← mapNumbers f v
    let ws ← mapNumbersOfMembers f rest
    return (k, w) :: ws

end

section Lists

theorem depthOfMembers_le_iff {members : List (String × Json)} {d : Nat} :
    depthOfMembers members ≤ d ↔ ∀ m ∈ members, m.2.depth ≤ d := by
  induction members with
  | nil => simp [depthOfMembers]
  | cons m rest ih =>
    obtain ⟨k, v⟩ := m
    simp [depthOfMembers, ih]

theorem mem_numbersOfMembers {members : List (String × Json)} {n : Number} :
    n ∈ numbersOfMembers members ↔ ∃ m ∈ members, n ∈ m.2.numbers := by
  induction members with
  | nil => simp [numbersOfMembers]
  | cons m rest ih =>
    obtain ⟨k, v⟩ := m
    simp [numbersOfMembers, ih]

theorem keys_mapNumbersOfMembers {f : Number → Option Number} {members ms : List (String × Json)}
    (h : mapNumbersOfMembers f members = some ms) : Ordered.keys ms = Ordered.keys members := by
  induction members generalizing ms with
  | nil =>
    cases h
    rfl
  | cons m rest ih =>
    obtain ⟨k, v⟩ := m
    simp only [mapNumbersOfMembers, Option.bind_eq_bind, Option.bind_eq_some_iff] at h
    obtain ⟨w, -, ws, hws, h⟩ := h
    cases h
    rw [Ordered.keys_cons, Ordered.keys_cons, ih hws]

end Lists

mutual

theorem mapNumbers_eq_self {f : Number → Option Number} :
    (v : Json) → (∀ n ∈ v.numbers, f n = some n) → mapNumbers f v = some v
  | .null, _ => rfl
  | .bool _, _ => rfl
  | .number n, h => by
    rw [mapNumbers, h n (by simp [numbers])]
    rfl
  | .text _, _ => rfl
  | .array items, h => by
    rw [mapNumbers, mapNumbersOfItems_eq_self items h]
    rfl
  | .object members, h => by
    rw [mapNumbers, mapNumbersOfMembers_eq_self members h]
    rfl

theorem mapNumbersOfItems_eq_self {f : Number → Option Number} :
    (items : List Json) → (∀ n ∈ numbersOfItems items, f n = some n) →
    mapNumbersOfItems f items = some items
  | [], _ => rfl
  | v :: rest, h => by
    simp only [numbersOfItems, List.mem_append] at h
    rw [mapNumbersOfItems, mapNumbers_eq_self v fun n hn => h n (.inl hn),
      mapNumbersOfItems_eq_self rest fun n hn => h n (.inr hn)]
    rfl

theorem mapNumbersOfMembers_eq_self {f : Number → Option Number} :
    (members : List (String × Json)) → (∀ n ∈ numbersOfMembers members, f n = some n) →
    mapNumbersOfMembers f members = some members
  | [], _ => rfl
  | (k, v) :: rest, h => by
    simp only [numbersOfMembers, List.mem_append] at h
    rw [mapNumbersOfMembers, mapNumbers_eq_self v fun n hn => h n (.inl hn),
      mapNumbersOfMembers_eq_self rest fun n hn => h n (.inr hn)]
    rfl

end

mutual

theorem depth_written : (v : Json) → ∀ t, written v = some t → t.depth = v.depth
  | .null, t, h => by
    cases h
    rfl
  | .bool _, t, h => by
    cases h
    rfl
  | .number n, t, h => by
    rw [written] at h
    obtain ⟨w, -, rfl⟩ := Option.map_eq_some_iff.mp h
    rfl
  | .text _, t, h => by
    cases h
    rfl
  | .array items, t, h => by
    rw [written] at h
    obtain ⟨ts, hts, rfl⟩ := Option.map_eq_some_iff.mp h
    rw [Tree.depth, depth, depth_writtenItems items ts hts]
  | .object members, t, h => by
    rw [written] at h
    obtain ⟨ms, hms, rfl⟩ := Option.map_eq_some_iff.mp h
    rw [Tree.depth, depth, depth_writtenMembers members ms hms]

theorem depth_writtenItems : (items : List Json) → ∀ ts, writtenItems items = some ts →
    itemsDepth ts = depthOfItems items
  | [], ts, h => by
    cases h
    rfl
  | v :: rest, ts, h => by
    simp only [writtenItems, Option.bind_eq_bind, Option.bind_eq_some_iff] at h
    obtain ⟨t, ht, us, hus, h⟩ := h
    cases h
    rw [itemsDepth, depthOfItems, depth_written v t ht, depth_writtenItems rest us hus]

theorem depth_writtenMembers : (members : List (String × Json)) → ∀ ms,
    writtenMembers members = some ms → membersDepth ms = depthOfMembers members
  | [], ms, h => by
    cases h
    rfl
  | (k, v) :: rest, ms, h => by
    simp only [writtenMembers, Option.bind_eq_bind, Option.bind_eq_some_iff] at h
    obtain ⟨t, ht, us, hus, h⟩ := h
    cases h
    rw [membersDepth, depthOfMembers, depth_written v t ht, depth_writtenMembers rest us hus]

end

mutual

/-- The value of what was written is the value that was, but for its numbers. -/
theorem written_bind_ofTree : (v : Json) → v.HasUniqueKeys →
    (written v).bind ofTree = v.mapNumbers Number.reread
  | .null, _ => rfl
  | .bool _, _ => rfl
  | .number n, _ => by
    rw [written, mapNumbers, Number.reread]
    cases Written.read n.chars <;> rfl
  | .text _, _ => rfl
  | .array items, h => by
    rw [written, mapNumbers, ← writtenItems_bind_ofItems items h]
    cases writtenItems items <;> rfl
  | .object members, h => by
    rw [HasUniqueKeys] at h
    have hmembers := writtenMembers_bind_ofMembers members h.2
    rw [written, mapNumbers, ← hmembers]
    cases hw : writtenMembers members with
    | none => rfl
    | some ts =>
      rw [hw, Option.bind_some] at hmembers
      rw [Option.map_some, Option.bind_some, Option.bind_some, ofTree]
      cases hms : ofMembers ts with
      | none => rfl
      | some ms =>
        -- The keys are those that were written, so that making a map of the members moves none.
        have hkeys : (Ordered.keys ms).Nodup := by
          rw [keys_mapNumbersOfMembers (hmembers.symm.trans hms)]
          exact h.1
        simp only [Option.map_some, Ordered.ofList_eq_self hkeys]

theorem writtenItems_bind_ofItems : (items : List Json) → ItemsHaveUniqueKeys items →
    (writtenItems items).bind ofItems = mapNumbersOfItems Number.reread items
  | [], _ => rfl
  | v :: rest, h => by
    rw [ItemsHaveUniqueKeys] at h
    rw [writtenItems, mapNumbersOfItems, ← written_bind_ofTree v h.1,
      ← writtenItems_bind_ofItems rest h.2]
    cases written v with
    | none => rfl
    | some t =>
      cases writtenItems rest with
      | none => cases ht : ofTree t <;> simp [ht]
      | some ts => rfl

theorem writtenMembers_bind_ofMembers : (members : List (String × Json)) →
    MembersHaveUniqueKeys members →
    (writtenMembers members).bind ofMembers = mapNumbersOfMembers Number.reread members
  | [], _ => rfl
  | (k, v) :: rest, h => by
    rw [MembersHaveUniqueKeys] at h
    rw [writtenMembers, mapNumbersOfMembers, ← written_bind_ofTree v h.1,
      ← writtenMembers_bind_ofMembers rest h.2]
    cases written v with
    | none => rfl
    | some t =>
      cases writtenMembers rest with
      | none => cases ht : ofTree t <;> simp [ht]
      | some ms => rfl

end

/-- Reading the compact text of a value gives the value back, with each number as it is read where it
was written. Nothing is read where the value is nested too deeply, or where a number is out of range
in the form in which it was written. -/
theorem read_compact (v : Json) (h : v.HasUniqueKeys) :
    read (compact v) = if v.depth ≤ maxDepth then v.mapNumbers Number.reread else none := by
  rw [read, tree_compact, ← written_bind_ofTree v h]
  cases ht : written v with
  | none => simp
  | some t =>
    have hdepth := depth_written v t ht
    simp only [Option.bind_eq_bind, Option.bind_some, hdepth]

/-- A value after its text was read and written once more: with the numbers that are read where they
were written. A value that is nested too deeply stays as it is, and so does one with a number that is
out of range in the form in which it was written. -/
def restored (v : Json) : Json :=
  if v.depth ≤ maxDepth then (v.mapNumbers Number.reread).getD v else v

theorem restored_eq_self {v : Json} (h : maxDepth < v.depth ∨ ∀ n ∈ v.numbers, n.reread = some n) :
    v.restored = v := by
  unfold restored
  split_ifs with hdepth
  · rw [mapNumbers_eq_self v (h.resolve_left (not_lt.mpr hdepth))]
    rfl
  · rfl

/-- Whether no real in a value changes where its text is read: it is not read, being nested too deeply,
or every real in it is zero, has a short decimal, or is read from its digits as it was. -/
def KeepsReals (v : Json) : Prop :=
  maxDepth < v.depth ∨ ∀ negative x, .real negative x ∈ v.numbers →
    x.significand = 0 ∨ IsShort (x.shortest Decimal.double .even) ∨
      (Number.real negative x).reread = some (.real negative x)

theorem KeepsReals.restored_eq_self {v : Json} (h : v.KeepsReals)
    (hrange : ∀ n ∈ v.numbers, n.InRange)
    (hdoubles : ∀ negative x, .real negative x ∈ v.numbers → x.IsDouble) : v.restored = v := by
  refine Json.restored_eq_self (h.imp_right fun hreals n hn => ?_)
  cases n with
  | integer n => exact reread_integer (hrange _ hn)
  | real negative x =>
    have hx := hdoubles negative x hn
    rcases hreals negative x hn with hzero | hshort | hreread
    · exact reread_of_short negative hx (.inl hzero)
    · exact reread_of_short negative hx (.inr hshort)
    · exact hreread

/-- What is read from the compact text of a value, or the value where nothing is read. -/
theorem getD_read_compact {v : Json} (h : v.HasUniqueKeys) :
    (read (compact v)).getD v = v.restored := by
  rw [read_compact v h, restored]
  split_ifs
  · rfl
  · rfl

theorem read_compact_eq_self {v : Json} (hkeys : v.HasUniqueKeys) (hdepth : v.depth ≤ maxDepth)
    (hnumbers : ∀ n ∈ v.numbers, n.reread = some n) : read (compact v) = some v := by
  rw [read_compact v hkeys, if_pos hdepth, mapNumbers_eq_self v hnumbers]

mutual

/-- What holds of the numbers that are read holds of all numbers in a value that is read. -/
theorem numbers_ofTree {P : Number → Prop} (hP : ∀ w n, Written.number w = some n → P n) :
    (t : Tree) → ∀ v, ofTree t = some v → ∀ n ∈ v.numbers, P n
  | .null, v, h => by
    cases h
    simp [numbers]
  | .bool b, v, h => by
    cases h
    simp [numbers]
  | .number w, v, h => by
    rw [ofTree] at h
    obtain ⟨n, hn, rfl⟩ := Option.map_eq_some_iff.mp h
    simpa [numbers] using hP w n hn
  | .text s, v, h => by
    rw [ofTree] at h
    obtain ⟨x, -, rfl⟩ := Option.map_eq_some_iff.mp h
    simp [numbers]
  | .array items, v, h => by
    rw [ofTree] at h
    obtain ⟨vs, hvs, rfl⟩ := Option.map_eq_some_iff.mp h
    exact numbers_ofItems hP items vs hvs
  | .object members, v, h => by
    rw [ofTree] at h
    obtain ⟨ms, hms, rfl⟩ := Option.map_eq_some_iff.mp h
    intro n hn
    obtain ⟨m, hm, hn⟩ := mem_numbersOfMembers.mp hn
    exact numbers_ofMembers hP members ms hms n
      (mem_numbersOfMembers.mpr ⟨m, Ordered.mem_of_mem_ofList hm, hn⟩)

theorem numbers_ofItems {P : Number → Prop} (hP : ∀ w n, Written.number w = some n → P n) :
    (items : List Tree) → ∀ vs, ofItems items = some vs → ∀ n ∈ numbersOfItems vs, P n
  | [], vs, h => by
    cases h
    simp [numbersOfItems]
  | t :: rest, vs, h => by
    obtain ⟨v, hv, ws, hws, rfl⟩ := ofItems_cons_eq_some.mp h
    intro n hn
    rcases List.mem_append.mp hn with hn | hn
    · exact numbers_ofTree hP t v hv n hn
    · exact numbers_ofItems hP rest ws hws n hn

theorem numbers_ofMembers {P : Number → Prop} (hP : ∀ w n, Written.number w = some n → P n) :
    (members : List (Option String × Tree)) → ∀ ms, ofMembers members = some ms →
    ∀ n ∈ numbersOfMembers ms, P n
  | [], ms, h => by
    cases h
    simp [numbersOfMembers]
  | (k, t) :: rest, ms, h => by
    obtain ⟨key, -, v, hv, ws, hws, rfl⟩ := ofMembers_cons_eq_some.mp h
    intro n hn
    rcases List.mem_append.mp hn with hn | hn
    · exact numbers_ofTree hP t v hv n hn
    · exact numbers_ofMembers hP rest ws hws n hn

end

mutual

theorem depth_ofTree : (t : Tree) → ∀ v, ofTree t = some v → v.depth ≤ t.depth
  | .null, v, h => by
    cases h
    exact Nat.le_refl _
  | .bool b, v, h => by
    cases h
    exact Nat.le_refl _
  | .number w, v, h => by
    rw [ofTree] at h
    obtain ⟨n, -, rfl⟩ := Option.map_eq_some_iff.mp h
    exact Nat.le_refl _
  | .text s, v, h => by
    rw [ofTree] at h
    obtain ⟨x, -, rfl⟩ := Option.map_eq_some_iff.mp h
    exact Nat.le_refl _
  | .array items, v, h => by
    rw [ofTree] at h
    obtain ⟨vs, hvs, rfl⟩ := Option.map_eq_some_iff.mp h
    rw [depth, Tree.depth]
    exact Nat.succ_le_succ (depth_ofItems items vs hvs)
  | .object members, v, h => by
    rw [ofTree] at h
    obtain ⟨ms, hms, rfl⟩ := Option.map_eq_some_iff.mp h
    have hdepth := depthOfMembers_le_iff.mp (depth_ofMembers members ms hms)
    rw [depth, Tree.depth]
    exact Nat.succ_le_succ (depthOfMembers_le_iff.mpr fun m hm =>
      hdepth m (Ordered.mem_of_mem_ofList hm))

theorem depth_ofItems : (items : List Tree) → ∀ vs, ofItems items = some vs →
    depthOfItems vs ≤ itemsDepth items
  | [], vs, h => by
    cases h
    exact Nat.le_refl _
  | t :: rest, vs, h => by
    obtain ⟨v, hv, ws, hws, rfl⟩ := ofItems_cons_eq_some.mp h
    exact max_le_max (depth_ofTree t v hv) (depth_ofItems rest ws hws)

theorem depth_ofMembers : (members : List (Option String × Tree)) → ∀ ms,
    ofMembers members = some ms → depthOfMembers ms ≤ membersDepth members
  | [], ms, h => by
    cases h
    exact Nat.le_refl _
  | (k, t) :: rest, ms, h => by
    obtain ⟨key, -, v, hv, ws, hws, rfl⟩ := ofMembers_cons_eq_some.mp h
    exact max_le_max (depth_ofTree t v hv) (depth_ofMembers rest ws hws)

end

/-- A value that was read is one that could be: no deeper than is allowed, no key twice in an object,
and its integers in range. -/
theorem bounds_read {s : String} {v : Json} (h : read s = some v) :
    v.depth ≤ maxDepth ∧ v.HasUniqueKeys ∧ ∀ n ∈ v.numbers, n.InRange := by
  have hkeys := hasUniqueKeys_read h
  obtain ⟨t, -, hdepth, hv⟩ := read_eq_some_iff.mp h
  exact ⟨(depth_ofTree t v hv).trans hdepth, hkeys,
    numbers_ofTree (fun _ _ hw => inRange_number hw) t v hv⟩

end CaseUpdate.Json
