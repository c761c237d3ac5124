import CaseUpdate.Proofs.Database.Updating
import CaseUpdate.Proofs.Target.Listings

namespace CaseUpdate

open Batch (Input Options)
open Calendar (Instant)

namespace Batch

/-- Without rows, or with an input that is none, a batch comes to the same for all targets. -/
theorem prepare_of_no_rows (now : Instant) (options : Options) {inputs : List Input}
    (h : inputs = [] ∨ ∃ e, inputs.mapM Input.toRow = .error e) :
    ∃ result : Except Error (Option Compiled), (∀ c, result ≠ .ok (some c)) ∧
      ∀ t, prepare t now options inputs = result := by
  rcases h with rfl | ⟨e, hrows⟩
  · refine ⟨.ok none, by simp, ?_⟩
    intro t
    rfl
  · have hne : inputs ≠ [] := by
      rintro rfl
      cases hrows
    refine ⟨.error e, by simp, ?_⟩
    intro t
    rw [prepare, if_neg (by simpa using hne), compile_of_error hrows]
    rfl

end Batch

namespace Database

/-- What happens to a session: a call, or a change that others make. After the change the database
is another one, and it may have begun or ceased to answer. -/
inductive Event where
  | columns (t : Target)
  | bind (t : Target)
  | update (t : Target) (now : Instant) (options : Options) (inputs : List Input)
  | invalidate (t : Target)
  | clear
  | change (db : Database) (answers : Bool)

namespace Event

/-- Whether an update must learn the columns of its target: in strict mode, unless the target knows
them, and when there are rows to update. -/
def learns (t : Target) (options : Options) (inputs : List Input) : Bool :=
  options.strict && t.knownColumns.isNone &&
    match inputs.mapM Input.toRow with
    | .ok rows => !rows.isEmpty
    | .error _ => false

/-- Whether an event asks for the columns of a table, under the name that it has in the database. -/
def asks (table : String) : Event → Bool
  | .columns t | .bind t => t.qualifiedTable = table
  | .update t _ options inputs => learns t options inputs && t.qualifiedTable = table
  | _ => false

def forgets (table : String) : Event → Bool
  | .invalidate t => t.qualifiedTable = table
  | .clear => true
  | _ => false

theorem no_rows {t : Target} {options : Options} {inputs : List Input}
    (hunknown : options.strict && t.knownColumns.isNone) (h : learns t options inputs = false) :
    inputs = [] ∨ ∃ e, inputs.mapM Input.toRow = .error e := by
  rw [learns, hunknown, Bool.true_and] at h
  cases hrows : inputs.mapM Input.toRow with
  | error e => exact .inr ⟨e, rfl⟩
  | ok rows =>
    rw [hrows] at h
    have hnil : rows = [] := by simpa using h
    subst hnil
    exact .inl (List.forall₂_nil_right_iff.mp (mapM_eq_ok.mp hrows))

end Event

namespace Session

def after (s : Session) : Event → Session
  | .columns t => (s.columns t).2
  | .bind t => (s.bind t).2
  | .update t now options inputs => (s.update t now options inputs).2
  | .invalidate t => s.invalidate t
  | .clear => s.clear
  | .change db answers => { s with database := db, answers := answers }

def afterAll (s : Session) (events : List Event) : Session := events.foldl after s

/-- The events of a run, each with the session in which it happens. -/
def history (s : Session) : List Event → List (Session × Event)
  | [] => []
  | e :: rest => (s, e) :: (s.after e).history rest

/-- The columns of a table in the order of their declaration, if the database can tell them. -/
def listing? (s : Session) (table : String) : Option (List String) :=
  if s.answers ∧ s.database.columnsOf table ≠ [] then some (s.database.columnsOf table) else none

end Session

/-- What an event loads for a table that is not at hand. -/
def loaded? (table : String) (moment : Session × Event) : Option (List String) :=
  if moment.2.asks table then moment.1.listing? table else none

/-- The columns of a table as they were when they were first loaded since they were last
forgotten. -/
def firstLoad (table : String) (history : List (Session × Event)) : Option (List String) :=
  (history.rtakeWhile fun moment => !moment.2.forgets table).findSome? (loaded? table)

theorem firstLoad_concat (table : String) (history : List (Session × Event))
    (moment : Session × Event) :
    firstLoad table (history ++ [moment]) =
      if moment.2.forgets table then none
      else (firstLoad table history).or (loaded? table moment) := by
  unfold firstLoad
  rw [List.rtakeWhile_concat]
  cases moment.2.forgets table with
  | true => simp
  | false =>
    simp only [Bool.not_false, if_true, Bool.false_eq_true, if_false]
    rw [List.findSome?_append]
    cases hloaded : loaded? table moment <;> simp [List.findSome?, hloaded]

namespace Session

variable (s : Session) (t : Target)

theorem afterAll_concat (events : List Event) (e : Event) :
    s.afterAll (events ++ [e]) = (s.afterAll events).after e := by
  rw [afterAll, List.foldl_append]
  rfl

theorem history_concat (events : List Event) (e : Event) :
    s.history (events ++ [e]) = s.history events ++ [(s.afterAll events, e)] := by
  induction events generalizing s with
  | nil => rfl
  | cons d rest ih =>
    rw [List.cons_append, history, ih (s.after d)]
    rfl

theorem load_eq (table : String) :
    (∃ columns, s.listing? table = some columns ∧ s.load table = .ok columns ∧ columns ≠ []) ∨
      s.listing? table = none ∧ ∃ failure, s.load table = .error failure := by
  unfold listing? load
  cases s.answers with
  | false => simp
  | true => by_cases h : s.database.columnsOf table = [] <;> simp [h]

/-- The columns that are at hand are answered, whatever the database has become. -/
theorem columns_of_hit {columns : List String}
    (h : s.listings.get? t.qualifiedTable = some columns) : s.columns t = (.ok columns, s) := by
  unfold Session.columns
  dsimp only
  rw [Listings.getOrLoad_of_hit h]
  rfl

theorem columns_of_miss (h : s.listings.get? t.qualifiedTable = none) :
    s.columns t =
      match s.load t.qualifiedTable with
      | .ok columns =>
        (.ok columns, { s with listings := s.listings.insert t.qualifiedTable columns })
      | .error failure => (.error failure, s) := by
  unfold Session.columns
  dsimp only
  rw [Listings.getOrLoad_of_miss h]
  cases s.load t.qualifiedTable <;> rfl

/-- To learn the columns of a table leaves those of the others alone. -/
theorem get?_columns (table : String) : (s.columns t).2.listings.get? table =
    (s.listings.get? table).or (if t.qualifiedTable = table then s.listing? table else none) := by
  cases h : s.listings.get? t.qualifiedTable with
  | some columns =>
    rw [s.columns_of_hit t h]
    split_ifs with htable
    · rw [← htable, h]
      rfl
    · rw [Option.or_none]
  | none =>
    rw [s.columns_of_miss t h]
    rcases s.load_eq t.qualifiedTable with ⟨columns, hlisting, hload, -⟩ | ⟨hlisting, _, hload⟩
    · rw [hload]
      dsimp only
      rw [Listings.get?_insert]
      split_ifs with htable
      · rw [← htable, h, hlisting]
        rfl
      · rw [Option.or_none]
    · rw [hload]
      dsimp only
      split_ifs with htable
      · rw [← htable, h, hlisting]
        rfl
      · rw [Option.or_none]

/-- What is sent to the database neither reads nor changes the listings. -/
theorem settle_withListings (listings : Listings)
    (p : Except Batch.Error (Option Batch.Compiled)) :
    ({ s with listings := listings }.settle p) =
      ((s.settle p).1, { (s.settle p).2 with listings := listings }) := by
  cases p with
  | error e => rfl
  | ok c =>
    cases c with
    | none => rfl
    | some c =>
      unfold settle execute
      dsimp only
      split_ifs
      · cases s.database.execute .numeric c.statement.sql <;> rfl
      · rfl

theorem listings_settle (p : Except Batch.Error (Option Batch.Compiled)) :
    (s.settle p).2.listings = s.listings :=
  congrArg (fun r => r.2.listings) (s.settle_withListings s.listings p)

section Updates

variable (now : Instant) {options : Options} {inputs : List Input}

/-- An update that need not learn the columns of its target does not look at what is at hand. -/
theorem update_of_not_learns (h : Event.learns t options inputs = false) :
    s.update t now options inputs = s.settle (Batch.prepare t now options inputs) := by
  by_cases hmode : options.strict = false ∨ t.knownColumns.isSome
  · exact s.update_eq t now options inputs hmode
  · rcases Event.no_rows (by simpa [not_or] using hmode) h with rfl | ⟨e, hrows⟩
    · rfl
    · have hne : inputs ≠ [] := by
        rintro rfl
        cases hrows
      rw [s.update_of_error t now options hrows, Batch.prepare, if_neg (by simpa using hne),
        Batch.compile_of_error hrows]
      rfl

/-- One that must learn them is the update of the target with them. -/
theorem update_of_learns (h : Event.learns t options inputs) :
    s.update t now options inputs =
      match s.columns t with
      | (.error failure, s) => (.error failure, s)
      | (.ok columns, s) => s.update (t.withColumns columns) now options inputs := by
  rw [Event.learns, Bool.and_eq_true] at h
  obtain ⟨hunknown, hinputs⟩ := h
  cases hrows : inputs.mapM Input.toRow with
  | error e =>
    rw [hrows] at hinputs
    cases hinputs
  | ok rows =>
    have hne : inputs ≠ [] := by
      rintro rfl
      cases hrows
      cases hinputs
    rw [s.update_of_rows t now options hrows hne, if_pos hunknown]
    unfold Session.bind
    generalize s.columns t = found
    obtain ⟨result, s'⟩ := found
    cases result with
    | error failure => rfl
    | ok columns => exact (s'.update_eq (t.withColumns columns) now options inputs (.inr rfl)).symm

theorem listings_update :
    (s.update t now options inputs).2.listings =
      if Event.learns t options inputs then (s.columns t).2.listings else s.listings := by
  by_cases h : Event.learns t options inputs
  · rw [if_pos h, s.update_of_learns t now h]
    generalize s.columns t = found
    obtain ⟨result, s'⟩ := found
    cases result with
    | error failure => rfl
    | ok columns =>
      dsimp only
      rw [s'.update_eq (t.withColumns columns) now options inputs (.inr rfl)]
      exact s'.listings_settle _
  · rw [if_neg h, s.update_of_not_learns t now (by simpa using h)]
    exact s.listings_settle _

end Updates

/-- What an event makes of the listing of a table: it forgets it, or loads it where it is missing. -/
theorem get?_after (e : Event) (table : String) : (s.after e).listings.get? table =
    if e.forgets table then none
    else (s.listings.get? table).or (loaded? table (s, e)) := by
  cases e with
  | columns t =>
    rw [after, get?_columns]
    simp [Event.forgets, Event.asks, loaded?]
  | bind t =>
    have hbind : (s.bind t).2 = (s.columns t).2 := rfl
    rw [after, hbind, get?_columns]
    simp [Event.forgets, Event.asks, loaded?]
  | update t now options inputs =>
    rw [after, listings_update]
    by_cases h : Event.learns t options inputs
    · rw [if_pos h, get?_columns]
      simp [Event.forgets, Event.asks, loaded?, h]
    · rw [if_neg h]
      simp [Event.forgets, Event.asks, loaded?, h]
  | invalidate t =>
    have hinvalidate : (s.after (.invalidate t)).listings = s.listings.invalidate t.qualifiedTable :=
      rfl
    rw [hinvalidate, Listings.get?_invalidate]
    simp [Event.forgets, Event.asks, loaded?]
  | clear => rfl
  | change db answers => simp [after, Event.forgets, Event.asks, loaded?]

/-- After any run that begins with nothing at hand, the listing of a table is the one that was first
loaded since it was last forgotten. -/
theorem get?_afterAll (h : s.listings = .empty) (events : List Event) (table : String) :
    (s.afterAll events).listings.get? table = firstLoad table (s.history events) := by
  induction events using List.reverseRecOn with
  | nil =>
    rw [afterAll, List.foldl_nil, h]
    rfl
  | append_singleton events e ih =>
    rw [afterAll_concat, history_concat, get?_after, firstLoad_concat, ih]

theorem ne_nil_of_listing? {table : String} {columns : List String}
    (h : s.listing? table = some columns) : columns ≠ [] := by
  unfold listing? at h
  split_ifs at h with hfound
  cases h
  exact hfound.2

/-- A listing is loaded by an event of the run that asks for its table. -/
theorem exists_moment_of_firstLoad {table : String} {columns : List String}
    {history : List (Session × Event)} (h : firstLoad table history = some columns) :
    ∃ moment ∈ history, moment.2.asks table ∧ moment.1.listing? table = some columns := by
  obtain ⟨moment, hmem, hloaded⟩ := List.exists_of_findSome?_eq_some h
  unfold loaded? at hloaded
  split_ifs at hloaded with hasks
  exact ⟨moment, (List.rtakeWhile_suffix _ _).subset hmem, hasks, hloaded⟩

theorem settle_of_nothing {p : Except Batch.Error (Option Batch.Compiled)}
    (h : ∀ c, p ≠ .ok (some c)) : (s.settle p).2 = s := by
  cases p with
  | error e => rfl
  | ok c =>
    cases c with
    | none => rfl
    | some c => exact absurd rfl (h c)

/-- What is answered for columns that are not at hand. -/
theorem columns_of_first_load (h : s.listings.get? t.qualifiedTable = none) :
    (s.answers = false → s.columns t = (.error .database, s)) ∧
    (s.answers → s.database.columnsOf t.qualifiedTable = [] →
      s.columns t = (.error (.compile (.columnsUnavailable t.qualifiedTable)), s)) ∧
    (s.answers → s.database.columnsOf t.qualifiedTable ≠ [] →
      s.columns t = (.ok (s.database.columnsOf t.qualifiedTable), { s with
        listings := s.listings.insert t.qualifiedTable
          (s.database.columnsOf t.qualifiedTable) })) := by
  have hmiss := s.columns_of_miss t h
  unfold load at hmiss
  refine ⟨?_, ?_, ?_⟩
  · intro hanswers
    rw [hmiss, hanswers]
    rfl
  · intro hanswers hempty
    rw [hmiss, hanswers, hempty]
    rfl
  · intro hanswers hfound
    rw [hmiss, hanswers]
    simp [hfound]

/-- Without rows a strict update comes to the same whatever its target knows. -/
theorem update_of_no_rows (now : Instant) {options : Options} {inputs : List Input}
    (hunknown : options.strict && t.knownColumns.isNone)
    (h : Event.learns t options inputs = false) :
    (s.update t now options inputs).2 = s ∧ ∀ columns, s.update t now options inputs =
      s.update (t.withColumns columns) now options inputs := by
  obtain ⟨result, hnothing, hprepare⟩ :=
    Batch.prepare_of_no_rows now options (Event.no_rows hunknown h)
  have hupdate := s.update_of_not_learns t now h
  rw [hprepare t] at hupdate
  constructor
  · rw [hupdate]
    exact s.settle_of_nothing hnothing
  · intro columns
    rw [hupdate, s.update_eq (t.withColumns columns) now options inputs (.inr rfl), hprepare]

/-- The listings of a session over a whole run, of calls and of changes to the database in any order.
What is at hand for a table is not empty, and it is what the table's columns were when they were first
loaded since they were last forgotten; later changes of the table do not show. A target is answered
what is at hand for the name that its table has in the database, and else the columns that the table
has now, which are kept; a question that fails leaves everything as it is. An update looks at what is
at hand only if it must learn the columns of its target, and then it is the update of the target with
the columns that were answered. -/
theorem listings_are_first_loads (db : Database) (tablePrefix : String) (events : List Event) :
    let s := (start db tablePrefix).afterAll events
    let history := (start db tablePrefix).history events
    (∀ table, s.listings.get? table = firstLoad table history ∧
      ∀ columns, firstLoad table history = some columns → columns ≠ [] ∧
        ∃ moment ∈ history, moment.2.asks table ∧ moment.1.answers ∧
          columns = moment.1.database.columnsOf table) ∧
    (∀ t columns, firstLoad t.qualifiedTable history = some columns →
      s.columns t = (.ok columns, s)) ∧
    (∀ t, firstLoad t.qualifiedTable history = none →
      (s.answers = false → s.columns t = (.error .database, s)) ∧
      (s.answers → s.database.columnsOf t.qualifiedTable = [] →
        s.columns t = (.error (.compile (.columnsUnavailable t.qualifiedTable)), s)) ∧
      (s.answers → s.database.columnsOf t.qualifiedTable ≠ [] →
        s.columns t = (.ok (s.database.columnsOf t.qualifiedTable), { s with
          listings := s.listings.insert t.qualifiedTable
            (s.database.columnsOf t.qualifiedTable) }))) ∧
    (∀ t, s.bind t = ((s.columns t).1.map t.withColumns, (s.columns t).2)) ∧
    (∀ t now options inputs, options.strict = false ∨ t.knownColumns.isSome → ∀ listings,
      { s with listings := listings }.update t now options inputs =
        ((s.update t now options inputs).1,
          { (s.update t now options inputs).2 with listings := listings })) ∧
    (∀ t now options inputs, options.strict → t.knownColumns = none →
      (Event.learns t options inputs → s.update t now options inputs =
        match s.columns t with
        | (.error failure, s) => (.error failure, s)
        | (.ok columns, s) => s.update (t.withColumns columns) now options inputs) ∧
      (Event.learns t options inputs = false → (s.update t now options inputs).2 = s ∧
        ∀ columns, s.update t now options inputs =
          s.update (t.withColumns columns) now options inputs)) := by
  intro s history
  have hget (table : String) : s.listings.get? table = firstLoad table history :=
    (start db tablePrefix).get?_afterAll rfl events table
  refine ⟨?_, ?_, ?_, fun t => rfl, ?_, ?_⟩
  · intro table
    refine ⟨hget table, ?_⟩
    intro columns hcolumns
    obtain ⟨moment, hmem, hasks, hlisting⟩ := exists_moment_of_firstLoad hcolumns
    have hne := ne_nil_of_listing? _ hlisting
    unfold listing? at hlisting
    split_ifs at hlisting with hfound
    cases hlisting
    exact ⟨hne, moment, hmem, hasks, hfound.1, rfl⟩
  · intro t columns hcolumns
    exact s.columns_of_hit t ((hget _).trans hcolumns)
  · intro t hnone
    exact s.columns_of_first_load t ((hget _).trans hnone)
  · intro t now options inputs hmode listings
    rw [update_eq _ t now options inputs hmode, s.update_eq t now options inputs hmode]
    exact s.settle_withListings listings _
  · intro t now options inputs hstrict hunknown
    have hmode : options.strict && t.knownColumns.isNone := by simp [hstrict, hunknown]
    exact ⟨s.update_of_learns t now, s.update_of_no_rows t now hmode⟩

/-- A table gets a column after its columns were learnt: they are answered as they were until they
are forgotten, and not at all by a database that does not answer then. -/
theorem listings_are_first_loads_of_migration :
    let posts := (Target.ofTable "posts" "id").withPrefix "app_"
    let before : Database := ⟨[⟨"app_posts", ["id", "title"], []⟩]⟩
    let migrated : Database := ⟨[⟨"app_posts", ["id", "title", "views"], []⟩]⟩
    let kept := (start before "").afterAll [.columns posts, .change migrated true]
    let forgotten := kept.after (.invalidate posts)
    let closed := forgotten.after (.change migrated false)
    kept.columns posts = (.ok ["id", "title"], kept) ∧
      (forgotten.bind posts).1 = .ok (posts.withColumns ["id", "title", "views"]) ∧
      closed.columns posts = (.error .database, closed) := by
  intro posts before migrated kept forgotten closed
  obtain ⟨-, hhit, -⟩ := listings_are_first_loads before ""
    [.columns posts, .change migrated true]
  obtain ⟨-, -, hmiss, hbind, -⟩ := listings_are_first_loads before ""
    [.columns posts, .change migrated true, .invalidate posts]
  obtain ⟨-, -, hclosed, -⟩ := listings_are_first_loads before ""
    [.columns posts, .change migrated true, .invalidate posts, .change migrated false]
  refine ⟨hhit posts _ (by decide +kernel), ?_, (hclosed posts (by decide +kernel)).1 rfl⟩
  have hloaded := (hmiss posts (by decide +kernel)).2.2 rfl (by decide +kernel)
  have hbound := hbind posts
  rw [hloaded] at hbound
  have htable : migrated.columnsOf posts.qualifiedTable = ["id", "title", "views"] := by
    decide +kernel
  have hfirst : (forgotten.bind posts).1 =
      .ok (posts.withColumns (migrated.columnsOf posts.qualifiedTable)) := congrArg Prod.fst hbound
  rw [hfirst, htable]

end Session

end Database

end CaseUpdate
