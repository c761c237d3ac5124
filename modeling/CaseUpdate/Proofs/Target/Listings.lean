import Mathlib
import CaseUpdate.Target.Listings

namespace CaseUpdate.Listings

variable (c : Listings)

theorem get?_insert (table table' : String) (columns : List String) :
    (c.insert table columns).get? table' = if table = table' then some columns else c.get? table' :=
  Ordered.get?_put table table' columns c.tables

theorem get?_invalidate (table table' : String) :
    (c.invalidate table).get? table' = if table = table' then none else c.get? table' :=
  Ordered.get?_erase table table' c.tables

/-- What comes of a load: the listing is kept, or nothing changes. -/
def settled {ε : Type} (table : String) : Except ε (List String) →
    Except ε (List String) × Listings
  | .ok columns => (.ok columns, c.insert table columns)
  | .error e => (.error e, c)

section Loading

variable {c} {m : Type → Type} [Monad m] {ε : Type} {table : String}

/-- The columns that are at hand are answered, and nothing is loaded. -/
theorem getOrLoad_of_hit {columns : List String} (h : c.get? table = some columns)
    (load : m (Except ε (List String))) : c.getOrLoad table load = pure (.ok columns, c) := by
  rw [getOrLoad, columnsOf, h]
  rfl

/-- Columns that are not at hand are loaded, and what was loaded is what is read back. -/
theorem getOrLoad_of_miss [LawfulMonad m] (h : c.get? table = none)
    (load : m (Except ε (List String))) : c.getOrLoad table load = c.settled table <$> load := by
  have hread (columns : List String) : (c.insert table columns).columnsOf table = columns := by
    rw [columnsOf, get?_insert, if_pos rfl, Option.getD_some]
  rw [getOrLoad, h, map_eq_pure_bind]
  simp only [Option.isSome_none, Bool.false_eq_true, if_false]
  congr 1
  funext result
  cases result with
  | ok columns => simp only [hread, settled]
  | error e => rfl

end Loading

/-- What is done to listings. A load comes with what its loader brings where it is run. -/
inductive Action (ε : Type) where
  | insert (table : String) (columns : List String)
  | load (table : String) (brings : Except ε (List String))
  | invalidate (table : String)
  | clear

namespace Action

variable {ε : Type}

/-- Whether an action is about a table. -/
def concerns (table : String) : Action ε → Bool
  | .insert t _ | .load t _ | .invalidate t => t = table
  | .clear => true

def forgets (table : String) : Action ε → Bool
  | .invalidate t => t = table
  | .clear => true
  | _ => false

end Action

section Runs

variable {ε : Type}

/-- A loader that notes the listing that it brings. -/
def noting (brings : Except ε (List String)) :
    StateM (Option (List String)) (Except ε (List String)) := do
  set brings.toOption
  return brings

/-- Does an action, and tells which listing came with it: the one that is inserted, or the one that
a loader has brought. -/
def perform : Action ε → Listings × Option (List String)
  | .insert table columns => (c.insert table columns, some columns)
  | .load table brings =>
    let ((_, c), brought) := Id.run ((c.getOrLoad table (noting brings)).run none)
    (c, brought)
  | .invalidate table => (c.invalidate table, none)
  | .clear => (.empty, none)

def afterAll (actions : List (Action ε)) : Listings :=
  actions.foldl (fun c a => (c.perform a).1) c

/-- The actions of a run, each with the listing that came with it. -/
def history : Listings → List (Action ε) → List (Action ε × Option (List String))
  | _, [] => []
  | c, a :: rest => (a, (c.perform a).2) :: history (c.perform a).1 rest

/-- The listing that came with an action for a table. -/
def brought? (table : String) (moment : Action ε × Option (List String)) : Option (List String) :=
  if moment.1.concerns table then moment.2 else none

/-- The listing of a table that came last since the table was last forgotten. -/
def lastBrought (table : String) (history : List (Action ε × Option (List String))) :
    Option (List String) :=
  (history.rtakeWhile fun moment => !moment.1.forgets table).reverse.findSome? (brought? table)

theorem lastBrought_concat (table : String) (history : List (Action ε × Option (List String)))
    (moment : Action ε × Option (List String)) :
    lastBrought table (history ++ [moment]) =
      if moment.1.forgets table then none
      else (brought? table moment).or (lastBrought table history) := by
  unfold lastBrought
  rw [List.rtakeWhile_concat]
  cases moment.1.forgets table with
  | true => simp
  | false =>
    simp only [Bool.not_false, if_true, Bool.false_eq_true, if_false]
    rw [List.reverse_append, List.findSome?_append]
    cases hbrought : brought? table moment <;> simp [List.findSome?, hbrought]

theorem afterAll_concat (actions : List (Action ε)) (a : Action ε) :
    c.afterAll (actions ++ [a]) = ((c.afterAll actions).perform a).1 := by
  rw [afterAll, List.foldl_append]
  rfl

theorem history_concat (actions : List (Action ε)) (a : Action ε) :
    c.history (actions ++ [a]) = c.history actions ++ [(a, ((c.afterAll actions).perform a).2)] := by
  induction actions generalizing c with
  | nil => rfl
  | cons d rest ih =>
    rw [List.cons_append, history, ih (c.perform d).1]
    rfl

/-- A load of a table whose columns are at hand. -/
theorem perform_load_of_hit {table : String} {columns : List String}
    (h : c.get? table = some columns) (brings : Except ε (List String)) :
    c.perform (.load table brings) = (c, none) := by
  rw [perform, getOrLoad_of_hit h]
  rfl

/-- A load of a table whose columns are not at hand. -/
theorem perform_load_of_miss {table : String} (h : c.get? table = none)
    (brings : Except ε (List String)) :
    c.perform (.load table brings) = ((c.settled table brings).2, brings.toOption) := by
  rw [perform, getOrLoad_of_miss h]
  rfl

/-- What an action makes of the listing of a table. -/
theorem get?_perform (a : Action ε) (table : String) :
    (c.perform a).1.get? table =
      if a.forgets table then none
      else (brought? table (a, (c.perform a).2)).or (c.get? table) := by
  cases a with
  | insert t columns =>
    rw [perform, get?_insert]
    by_cases h : t = table <;> simp [Action.forgets, Action.concerns, brought?, h]
  | load t brings =>
    cases hget : c.get? t with
    | some columns =>
      rw [c.perform_load_of_hit hget]
      simp [Action.forgets, brought?]
    | none =>
      rw [c.perform_load_of_miss hget]
      cases brings with
      | error e => simp [settled, Action.forgets, brought?, Except.toOption]
      | ok columns =>
        simp only [settled, get?_insert]
        by_cases h : t = table <;>
          simp [Action.forgets, Action.concerns, brought?, Except.toOption, h]
  | invalidate t =>
    rw [perform, get?_invalidate]
    by_cases h : t = table <;> simp [Action.forgets, brought?, h]
  | clear => rfl

/-- An action leaves the listings of other tables alone. -/
theorem get?_perform_of_other {a : Action ε} {table : String} (h : a.concerns table = false) :
    (c.perform a).1.get? table = c.get? table := by
  have hforgets : a.forgets table = false := by
    cases a with
    | insert t columns => rfl
    | load t brings => rfl
    | invalidate t => exact h
    | clear => cases h
  rw [get?_perform, hforgets, brought?, h]
  rfl

theorem get?_afterAll (actions : List (Action ε)) (table : String) :
    (Listings.empty.afterAll actions).get? table =
      lastBrought table (Listings.empty.history actions) := by
  induction actions using List.reverseRecOn with
  | nil => rfl
  | append_singleton actions a ih =>
    rw [afterAll_concat, history_concat, get?_perform, lastBrought_concat, ih]

/-- Listings over a whole run that begins with nothing at hand. The listing of a table is the one that
came last since the table was last forgotten: it was inserted, or a loader brought it. A load answers
the columns that are at hand, and its loader is not run; where there are none, the loader is run once,
what it brings is answered and kept, and if it fails nothing changes at all. An action leaves the
listings of other tables alone. A target is bound to the columns of its table, with all other settings
as they are, unless there are none at hand. -/
theorem listings_are_last_brought (actions : List (Action ε)) :
    let c := Listings.empty.afterAll actions
    let last := fun table => lastBrought table (Listings.empty.history actions)
    (∀ table, c.get? table = last table) ∧
    (∀ (m : Type → Type) [Monad m] [LawfulMonad m] (table : String)
        (load : m (Except ε (List String))),
      (∀ columns, last table = some columns → c.getOrLoad table load = pure (.ok columns, c)) ∧
      (last table = none → c.getOrLoad table load =
        (fun | .ok columns => (.ok columns, c.insert table columns)
             | .error e => (.error e, c)) <$> load)) ∧
    (∀ (a : Action ε) (table : String), a.concerns table = false →
      (c.perform a).1.get? table = c.get? table) ∧
    (∀ t, (c.bind t = none ↔ last t.table = none) ∧
      ∀ bound, c.bind t = some bound ↔
        ∃ columns, last t.table = some columns ∧
          bound = { t with knownColumns := some columns }) := by
  intro c last
  have hget (table : String) : c.get? table = last table := get?_afterAll actions table
  refine ⟨hget, ?_, ?_, ?_⟩
  · intro m _ _ table load
    constructor
    · intro columns hlast
      exact getOrLoad_of_hit ((hget table).trans hlast) load
    · intro hlast
      exact getOrLoad_of_miss ((hget table).trans hlast) load
  · intro a table hother
    exact c.get?_perform_of_other hother
  · intro t
    rw [bind, hget]
    constructor
    · exact Option.map_eq_none_iff
    · intro bound
      rw [Option.map_eq_some_iff]
      simp only [Target.withColumns, eq_comm]

/-- A load that fails, one that brings an empty listing and one that is not run, and a table that was
forgotten. -/
theorem listings_are_last_brought_of_empty :
    let actions : List (Action String) := [.load "posts" (.error "offline"), .load "posts" (.ok []),
      .load "posts" (.ok ["id"]), .insert "tags" ["id"], .invalidate "tags"]
    let c := Listings.empty.afterAll actions
    let posts := Target.ofTable "posts" "id"
    c.get? "posts" = some [] ∧
      (∀ load : StateM Nat (Except String (List String)),
        c.getOrLoad "posts" load = pure (.ok [], c)) ∧
      c.getOrLoad "tags" (pure (.error "offline") : StateM Nat _) = pure (.error "offline", c) ∧
      (c.perform (.insert "tags" [] : Action String)).1.get? "posts" = c.get? "posts" ∧
      c.bind posts = some (posts.withColumns []) ∧ c.bind (Target.ofTable "tags" "id") = none := by
  intro actions c posts
  obtain ⟨hget, hload, hother, hbind⟩ := listings_are_last_brought actions
  have hposts : lastBrought "posts" (Listings.empty.history actions) = some [] := by decide +kernel
  have htags : lastBrought "tags" (Listings.empty.history actions) = none := by decide +kernel
  refine ⟨(hget "posts").trans hposts, ?_, ?_, hother _ "posts" (by decide),
    ((hbind posts).2 _).mpr ⟨[], hposts, rfl⟩, (hbind _).1.mpr htags⟩
  · intro load
    exact (hload (StateM Nat) "posts" load).1 [] hposts
  · exact (hload (StateM Nat) "tags" (pure (.error "offline"))).2 htags

end Runs

end CaseUpdate.Listings
