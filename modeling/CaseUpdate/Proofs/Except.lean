import Mathlib

namespace CaseUpdate

variable {ε α β : Type}

@[simp] theorem error_bind (e : ε) (f : α → Except ε β) : (.error e >>= f) = .error e := rfl

@[simp] theorem ok_bind (a : α) (f : α → Except ε β) : (.ok a >>= f) = f a := rfl

theorem bind_eq_ok {x : Except ε α} {f : α → Except ε β} {b : β} :
    (x >>= f) = .ok b ↔ ∃ a, x = .ok a ∧ f a = .ok b := by
  cases x <;> simp

theorem map_eq_ok {x : Except ε α} {f : α → β} {b : β} :
    x.map f = .ok b ↔ ∃ a, x = .ok a ∧ f a = b := by
  cases x <;> simp [Except.map]

theorem pure_eq_ok {a b : α} : (pure a : Except ε α) = .ok b ↔ a = b := by
  change Except.ok a = .ok b ↔ a = b
  rw [Except.ok.injEq]

theorem toOption_eq_some {x : Except ε α} {a : α} : x.toOption = some a ↔ x = .ok a := by
  cases x <;> simp [Except.toOption]

/-- A function succeeds on a list iff it does on each element. -/
theorem mapM_eq_ok {f : α → Except ε β} {l : List α} {m : List β} :
    l.mapM f = .ok m ↔ List.Forall₂ (fun a b => f a = .ok b) l m := by
  induction l generalizing m with
  | nil => rw [List.mapM_nil, pure_eq_ok, List.forall₂_nil_left_iff, eq_comm]
  | cons a l ih =>
    simp only [List.mapM_cons, bind_eq_ok, pure_eq_ok, List.forall₂_cons_left_iff, ih]
    constructor
    · rintro ⟨b, hb, bs, hbs, rfl⟩
      exact ⟨b, bs, hb, hbs, rfl⟩
    · rintro ⟨b, bs, hb, hbs, rfl⟩
      exact ⟨b, hb, bs, hbs, rfl⟩

/-- A fold of steps each of which succeeds under a condition on its element alone. -/
theorem foldlM_eq_ok_iff {f : β → α → Except ε β} {p : α → Prop} {g : β → α → β}
    (h : ∀ b a b', f b a = .ok b' ↔ p a ∧ g b a = b') {l : List α} {b b' : β} :
    l.foldlM f b = .ok b' ↔ (∀ a ∈ l, p a) ∧ l.foldl g b = b' := by
  induction l generalizing b with
  | nil =>
    rw [List.foldlM_nil, pure_eq_ok]
    simp
  | cons a l ih =>
    simp only [List.foldlM_cons, bind_eq_ok, h, ih, List.forall_mem_cons, List.foldl_cons]
    constructor
    · rintro ⟨_, ⟨ha, rfl⟩, hl, hb⟩
      exact ⟨⟨ha, hl⟩, hb⟩
    · rintro ⟨⟨ha, hl⟩, hb⟩
      exact ⟨_, ⟨ha, rfl⟩, hl, hb⟩

theorem exists_left {R : α → β → Prop} {l : List α} {m : List β} (h : List.Forall₂ R l m) {b : β}
    (hb : b ∈ m) : ∃ a ∈ l, R a b := by
  induction h with
  | nil => cases hb
  | cons hr _ ih =>
    rcases List.mem_cons.mp hb with rfl | hb
    · exact ⟨_, List.mem_cons_self, hr⟩
    · obtain ⟨a, ha, hr⟩ := ih hb
      exact ⟨a, List.mem_cons_of_mem _ ha, hr⟩

theorem exists_right {R : α → β → Prop} {l : List α} {m : List β} (h : List.Forall₂ R l m) {a : α}
    (ha : a ∈ l) : ∃ b ∈ m, R a b :=
  exists_left h.flip ha

/-- Two elements in the same place of lists that are related to one list. -/
theorem exists_common {R : α → β → Prop} {before after : List α} {x y : α} {l : List β}
    (h : List.Forall₂ R (before ++ x :: after) l) (h' : List.Forall₂ R (before ++ y :: after) l) :
    ∃ b, R x b ∧ R y b := by
  induction before generalizing l with
  | nil =>
    cases h with
    | cons hx _ =>
      cases h' with
      | cons hy _ => exact ⟨_, hx, hy⟩
  | cons a rest ih =>
    cases h with
    | cons _ hrest =>
      cases h' with
      | cons _ hrest' => exact ih hrest hrest'

theorem exists_of_mapM {f : α → Except ε β} {l : List α} {m : List β} (h : l.mapM f = .ok m) {a : α}
    (ha : a ∈ l) : ∃ b ∈ m, f a = .ok b :=
  exists_right (mapM_eq_ok.mp h) ha

theorem map_eq_map_of_forall₂ {γ : Type} {R : α → β → Prop} {f : β → γ} {g : α → γ} {l : List α}
    {m : List β} (h : List.Forall₂ R l m) (heq : ∀ a b, R a b → f b = g a) :
    m.map f = l.map g := by
  induction h with
  | nil => rfl
  | cons hr _ ih => rw [List.map_cons, List.map_cons, heq _ _ hr, ih]

/-- What relates the results of a function to other values is said element by element. -/
theorem forall₂_map_iff {γ : Type} {f : α → Except ε β} {S : β → γ → Prop} {g : α → γ} {l : List α}
    {m : List β} (h : List.Forall₂ (fun a b => f a = .ok b) l m) :
    List.Forall₂ S m (l.map g) ↔ ∀ a ∈ l, ∃ b, f a = .ok b ∧ S b (g a) := by
  induction h with
  | nil => simp
  | cons hb _ ih => simp [hb, ih]

end CaseUpdate
