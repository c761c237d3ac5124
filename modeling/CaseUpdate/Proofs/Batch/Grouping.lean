import Mathlib
import CaseUpdate.Batch.Gathered

namespace CaseUpdate.Batch

/-- Something new comes at the end, and something seen before changes nothing. -/
theorem eraseDups_concat (l : List String) (a : String) :
    (l ++ [a]).eraseDups = if a ∈ l then l.eraseDups else l.eraseDups ++ [a] := by
  rw [List.eraseDups_append]
  by_cases h : a ∈ l <;> simp [List.removeAll, h, List.eraseDups_cons]

theorem nodup_eraseDups (l : List String) : l.eraseDups.Nodup := by
  induction l using List.reverseRecOn with
  | nil => simp
  | append_singleton l a ih =>
    rw [eraseDups_concat]
    split_ifs with h
    · exact ih
    · have hfresh : a ∉ l.eraseDups := fun ha => h (List.mem_eraseDups.mp ha)
      rw [← List.concat_eq_append]
      exact ih.concat hfresh

/-- The columns of filed branches, in the order in which they first came. -/
def columnsOf (filed : List (String × Branch)) : List String := (filed.map Prod.fst).eraseDups

def branchesOf (column : String) (filed : List (String × Branch)) : List Branch :=
  (filed.filter fun f => f.1 = column).map Prod.snd

def grouped (filed : List (String × Branch)) : List Block :=
  (columnsOf filed).map fun column => ⟨column, branchesOf column filed⟩

theorem mem_columnsOf {column : String} {filed : List (String × Branch)} :
    column ∈ columnsOf filed ↔ column ∈ filed.map Prod.fst := List.mem_eraseDups

theorem columnsOf_concat (filed : List (String × Branch)) (column : String) (b : Branch) :
    columnsOf (filed ++ [(column, b)]) =
      if column ∈ columnsOf filed then columnsOf filed else columnsOf filed ++ [column] := by
  have hc : columnsOf (filed ++ [(column, b)]) =
      if column ∈ filed.map Prod.fst then columnsOf filed else columnsOf filed ++ [column] := by
    rw [columnsOf, List.map_append]
    exact eraseDups_concat _ column
  by_cases h : column ∈ columnsOf filed
  · rw [hc, if_pos h, if_pos (mem_columnsOf.mp h)]
  · rw [hc, if_neg h, if_neg (fun hm => h (mem_columnsOf.mpr hm))]

theorem branchesOf_concat (filed : List (String × Branch)) (column other : String) (b : Branch) :
    branchesOf other (filed ++ [(column, b)]) =
      if column = other then branchesOf other filed ++ [b] else branchesOf other filed := by
  by_cases h : column = other <;> simp [branchesOf, h]

theorem branchesOf_append (column : String) (filed filed' : List (String × Branch)) :
    branchesOf column (filed ++ filed') = branchesOf column filed ++ branchesOf column filed' := by
  rw [branchesOf, List.filter_append, List.map_append]
  rfl

theorem branchesOf_eq_nil {filed : List (String × Branch)} {column : String}
    (h : column ∉ columnsOf filed) : branchesOf column filed = [] := by
  rw [branchesOf, List.map_eq_nil_iff, List.filter_eq_nil_iff]
  intro f hf hc
  exact h (mem_columnsOf.mpr (List.mem_map.mpr ⟨f, hf, by simpa using hc⟩))

theorem map_eq_self {α : Type} {l : List α} {f : α → α} (h : ∀ a ∈ l, f a = a) : l.map f = l :=
  (List.map_congr_left h).trans (List.map_id l)

theorem modify_length_append {α : Type} (l rest : List α) (x : α) (f : α → α) :
    (l ++ x :: rest).modify l.length f = l ++ f x :: rest := by
  induction l with
  | nil => rfl
  | cons y l ih => simp [ih]

theorem getElem?_concat_eq_some_iff {l : List String} {a : String} (ha : a ∉ l) (b : String)
    (j : Nat) : (l ++ [a])[j]? = some b ↔ if a = b then j = l.length else l[j]? = some b := by
  rcases Nat.lt_trichotomy j l.length with hj | rfl | hj
  · rw [List.getElem?_append_left hj]
    by_cases hab : a = b
    · subst b
      have hne : l[j]? ≠ some a := fun he => ha (List.mem_of_getElem? he)
      simp [hne, Nat.ne_of_lt hj]
    · rw [if_neg hab]
  · by_cases hab : a = b <;> simp [hab]
  · have hlen : (l ++ [a]).length ≤ j := by
      rw [List.length_append, List.length_singleton]
      omega
    rw [List.getElem?_eq_none hlen, List.getElem?_eq_none (Nat.le_of_lt hj)]
    simp [Nat.ne_of_gt hj]

namespace Gathered

/-- What holds of the blocks and the positions after some branches were filed: the blocks are these
branches grouped by column, and a column has a position iff the block there is its own. -/
structure Represents (g : Gathered) (filed : List (String × Branch)) : Prop where
  blocks_eq : g.blocks = grouped filed
  position_iff : ∀ column i,
    Ordered.get? column g.positions = some i ↔ (columnsOf filed)[i]? = some column

theorem represents_empty : empty.Represents [] :=
  ⟨rfl, fun column i => by simp [empty, columnsOf, Ordered.get?]⟩

/-- The block of a column that has a position gets the branch at its end, and no other block
changes. -/
theorem modify_grouped {filed : List (String × Branch)} {column : String} {i : Nat} (b : Branch)
    (hi : ∀ j, (columnsOf filed)[j]? = some column ↔ j = i) :
    (grouped filed).modify i (fun block => ⟨block.column, block.branches ++ [b]⟩) =
      grouped (filed ++ [(column, b)]) := by
  have hmem : column ∈ columnsOf filed := List.mem_of_getElem? ((hi i).mpr rfl)
  apply List.ext_getElem?
  intro j
  rw [List.getElem?_modify, grouped, grouped, columnsOf_concat, if_pos hmem, List.getElem?_map,
    List.getElem?_map]
  cases hj : (columnsOf filed)[j]? with
  | none => simp
  | some other =>
    have hother : column = other ↔ i = j := by
      constructor
      · rintro rfl
        exact ((hi j).mp hj).symm
      · rintro rfl
        have hc := (hi i).mpr rfl
        rw [hj] at hc
        exact (Option.some.inj hc).symm
    by_cases hij : i = j
    · have hc := hother.mpr hij
      simp [hij, hc, branchesOf_concat]
    · have hc : ¬ column = other := fun h => hij (hother.mp h)
      simp [hij, hc, branchesOf_concat]

/-- Filing one more branch keeps blocks and positions in step. -/
theorem Represents.push {g : Gathered} {filed : List (String × Branch)} (h : g.Represents filed)
    (column : String) (b : Branch) : (g.push column b).Represents (filed ++ [(column, b)]) := by
  cases hp : Ordered.get? column g.positions with
  | some i =>
    have hi := (h.position_iff column i).mp hp
    have hmem : column ∈ columnsOf filed := List.mem_of_getElem? hi
    have huniq (j : Nat) : (columnsOf filed)[j]? = some column ↔ j = i := by
      constructor
      · intro hj
        have hpj := (h.position_iff column j).mpr hj
        rw [hp] at hpj
        exact (Option.some.inj hpj).symm
      · rintro rfl
        exact hi
    have hplace : g.place column = (i, g) := by simp [place, hp]
    constructor
    · simp only [Gathered.push, hplace, h.blocks_eq]
      exact modify_grouped b huniq
    · intro other j
      simp only [Gathered.push, hplace, columnsOf_concat, if_pos hmem]
      exact h.position_iff other j
  | none =>
    have hmem : column ∉ columnsOf filed := by
      intro hc
      obtain ⟨i, hi⟩ := List.mem_iff_getElem?.mp hc
      rw [(h.position_iff column i).mpr hi] at hp
      cases hp
    have hlen : g.blocks.length = (columnsOf filed).length := by
      rw [h.blocks_eq, grouped, List.length_map]
    have hplace : g.place column = (g.blocks.length, { g with
        blocks := g.blocks ++ [⟨column, []⟩]
        positions := Ordered.put column g.blocks.length g.positions }) := by simp [place, hp]
    constructor
    · simp only [Gathered.push, hplace]
      rw [modify_length_append, h.blocks_eq, grouped, grouped, columnsOf_concat, if_neg hmem,
        List.map_append]
      congr 1
      · apply List.map_congr_left
        intro other hother
        have hc : ¬ column = other := fun he => hmem (he ▸ hother)
        rw [branchesOf_concat, if_neg hc]
      · simp [branchesOf_concat, branchesOf_eq_nil hmem]
    · intro other j
      simp only [Gathered.push, hplace, columnsOf_concat, if_neg hmem]
      rw [Ordered.get?_put, hlen, getElem?_concat_eq_some_iff hmem]
      by_cases hc : column = other
      · rw [if_pos hc, if_pos hc, Option.some_inj, eq_comm]
      · rw [if_neg hc, if_neg hc]
        exact h.position_iff other j

end Gathered

end CaseUpdate.Batch
