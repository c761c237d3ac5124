import CaseUpdate.Proofs.Database.Caching
import CaseUpdate.Proofs.Database.Execution
import CaseUpdate.Proofs.Sql.Foreign

namespace CaseUpdate

open Batch
open Calendar (Instant)
open Sql (LiteralStyle)

def Scalar.IsBare : Scalar → Prop
  | .text s => Sql.IsBare s
  | _ => True

/-- Whether the text that is escaped for a change is bare, where there is one. -/
def Change.IsBare : Change → Prop
  | .document (.object members) => Sql.IsBare (Json.compact (.object members))
  | c => ((scalar? c).getD .null).IsBare

def Row.IsBare (r : Row) : Prop := ∀ e ∈ r.entries, e.2.IsBare

theorem Change.isBare_of_scalar? {c : Change} {s : Scalar} (h : scalar? c = some s) :
    c.IsBare ↔ s.IsBare := by
  unfold IsBare
  split
  · cases h
  · rw [h, Option.getD_some]

theorem Change.isBare_of_step? {c : Change} {s : Step} (h : step? c = some s) : c.IsBare := by
  unfold step? at h
  split at h
  · trivial
  · trivial
  · cases h

namespace Batch

section Literals

variable {target : Target}

theorem assignedScalar_denotes_iff (style : LiteralStyle) (s : Scalar) :
    (assignedScalar style s).Denotes .quoteDoubling (.ofScalar s) ↔
      style = .quoteDoubling ∨ s.IsBare := by
  have hsame (h : assignedScalar style s = assignedScalar .quoteDoubling s) :
      (assignedScalar style s).Denotes .quoteDoubling (.ofScalar s) := by
    rw [h]
    exact denotes_assignedScalar .quoteDoubling s
  cases s with
  | text s => exact style.denotes_foreign_iff s
  | _ => exact iff_of_true (hsame rfl) (.inr trivial)

theorem keyLiteral_denotes_iff {key : Scalar} (hkey : key ≠ .null) :
    LiteralStyle.quoteDoubling.Denotes (keyLiteral target key) (keyText key) ↔
      target.literalStyle = .quoteDoubling ∨ key.IsBare := by
  have hsame (h : keyLiteral target key = keyLiteral (target.withDialect .sqlite) key) :
      LiteralStyle.quoteDoubling.Denotes (keyLiteral target key) (keyText key) := by
    rw [h]
    exact denotes_keyLiteral (target.withDialect .sqlite) hkey
  cases key with
  | text s => exact target.literalStyle.denotes_foreign_iff s
  | _ => exact iff_of_true (hsame rfl) (.inr trivial)

theorem assigned_denotes_iff {column : String} {c : Change} {a : Assigned}
    (h : assigned target column c = .ok a) :
    a.Denotes .quoteDoubling (newValue c) ↔ target.literalStyle = .quoteDoubling ∨ c.IsBare := by
  rcases assigned_cases h with ⟨s, hs, rfl⟩ | ⟨s, hs, rfl⟩ | ⟨members, rfl, rfl⟩
  · rw [newValue_of_scalar? hs, Change.isBare_of_scalar? hs]
    exact assignedScalar_denotes_iff _ s
  · rw [newValue_of_step? hs]
    exact iff_of_true rfl (.inr (Change.isBare_of_step? hs))
  · exact target.literalStyle.denotes_foreign_iff _

end Literals

section Rows

variable {target : Target} {lookup : String} {rows : List Row}

/-- Where quotes are doubled and backslashes are characters like all others, the literals of a
statement denote its plan iff they were written that way or there is nothing to escape. -/
theorem statement_denotes_foreign_iff {options : Options} {c : Compiled}
    (hkeys : ∀ r ∈ rows, HasKey (lookupColumn target options) r)
    (h : compiledColumns target options rows = .ok c) :
    c.statement.Denotes .quoteDoubling (planOf target (lookupColumn target options) rows) ↔
      target.literalStyle = .quoteDoubling ∨ ∀ r ∈ rows, r.IsBare := by
  rw [statement_denotes_iff h]
  constructor
  · rintro ⟨hliterals, hbranches⟩
    by_cases hstyle : target.literalStyle = .quoteDoubling
    · exact .inl hstyle
    · right
      intro r hr e he
      have hget : r.get? e.1 = some e.2 := Ordered.get?_of_mem r.nodup he
      -- What stands in the lookup column is among the keys, all else among the branches.
      by_cases hlookup : e.1 = lookupColumn target options
      · rw [hlookup, (hkeys r hr).1] at hget
        rw [← Option.some.inj hget]
        exact ((keyLiteral_denotes_iff (hkeys r hr).2).mp (hliterals r hr)).resolve_left hstyle
      · have hcolumn : e.1 ∈ touchedColumns (lookupColumn target options) rows :=
          mem_touchedColumns.mpr ⟨hlookup, r, hr, Ordered.mem_keys_of_get? hget⟩
        obtain ⟨branch, hbranch, -, hvalue⟩ :=
          hbranches e.1 hcolumn (keyIn _ r, e.2) (mem_carried.mpr ⟨r, hr, hget, rfl⟩)
        obtain ⟨a, ha, rfl⟩ := map_eq_ok.mp hbranch
        exact ((assigned_denotes_iff ha).mp hvalue).resolve_left hstyle
  · intro hbare
    have hentry {r : Row} (hr : r ∈ rows) {column : String} {change : Change}
        (hget : r.get? column = some change) :
        target.literalStyle = .quoteDoubling ∨ change.IsBare :=
      hbare.imp_right fun hall => hall r hr _ (Ordered.mem_of_get? hget)
    have hkey (r : Row) (hr : r ∈ rows) := (keyLiteral_denotes_iff (hkeys r hr).2).mpr
      (hentry hr (hkeys r hr).1)
    refine ⟨hkey, ?_⟩
    intro column hcolumn g hg
    obtain ⟨branch, hbranch⟩ := exists_branchOf h hcolumn hg
    obtain ⟨a, ha, rfl⟩ := map_eq_ok.mp hbranch
    obtain ⟨r, hr, hget, hg⟩ := mem_carried.mp hg
    refine ⟨_, hbranch, ?_, (assigned_denotes_iff ha).mpr (hentry hr hget)⟩
    rw [← hg]
    exact hkey r hr

theorem newValue_of_text {c : Change} {text : String} (hc : scalar? c = some (.text text))
    (h : Sql.isDocument text = false) : newValue c = .text text := by
  rw [newValue_of_scalar? hc, NewValue.ofScalar, Scalar.stored?, Sql.storedText_of_not_isDocument h]

/-- A text that is no JSON document is planned as it is. -/
theorem mem_plannedBranches {r : Row} (hr : r ∈ rows) {column : String} {c : Change}
    (hget : r.get? column = some c) {text : String} (hc : scalar? c = some (.text text))
    (h : Sql.isDocument text = false) :
    (keyText (keyIn lookup r), .text text) ∈ plannedBranches lookup column rows := by
  rw [plannedBranches, List.mem_map]
  refine ⟨(keyIn lookup r, c), mem_carried.mpr ⟨r, hr, hget, rfl⟩, ?_⟩
  rw [newValue_of_text hc h]

theorem keyText_of_text {r : Row} (hkey : HasKey lookup r) {c : Change}
    (hget : r.get? lookup = some c) {text : String} (hc : scalar? c = some (.text text))
    (h : Sql.isDocument text = false) : keyText (keyIn lookup r) = text := by
  have hscalar := hkey.1
  rw [hget] at hscalar
  rw [Option.some.inj hscalar] at hc
  rw [keyText, Option.some.inj hc, Scalar.stored?, Sql.storedText_of_not_isDocument h]
  rfl

/-- It is stored as it is in the table rows with the key. -/
theorem cellAfter_of_text {arithmetic : Database.Arithmetic} {key column : String}
    (hne : column ≠ lookup) {c : Change} (hfirst : firstChange lookup rows key column = some c)
    {text : String} (hc : scalar? c = some (.text text)) (h : Sql.isDocument text = false)
    (old : Database.Cell) : cellAfter arithmetic lookup rows key column old = some text := by
  rw [cellAfter, if_neg hne, hfirst]
  dsimp only
  rw [newValue_of_text hc h]
  rfl

end Rows

end Batch

namespace Database

/-- Whether a database can read the statement of rows as it is meant: the literals are written with
doubled quotes, or have nothing to escape, and no name closes its bracket. -/
structure Legible (t : Target) (lookup : String) (rows : List Row) : Prop where
  literals : t.literalStyle = .quoteDoubling ∨ ∀ r ∈ rows, r.IsBare
  names : t.nameStyle = .bracket →
    ∀ column ∈ lookup :: touchedColumns lookup rows, ']' ∉ column.toList

theorem Legible.quotes {t : Target} {lookup : String} {rows : List Row} (h : Legible t lookup rows)
    {column : String} (hcolumn : column ∈ lookup :: touchedColumns lookup rows) :
    lexis.Quotes t.nameStyle column.toList := by
  cases hstyle : t.nameStyle with
  | bracket => exact .inr (h.names hstyle column hcolumn)
  | backtick => exact .inl rfl
  | doubleQuote => exact .inl rfl

/-- In the dialect of a database everything is legible, and in one that writes as it does. -/
theorem legible_of_dialect {t : Target} (h : t.dialect = .sqlite ∨ t.dialect = .postgres)
    (lookup : String) (rows : List Row) : Legible t lookup rows := by
  constructor
  · left
    rw [Target.literalStyle]
    rcases h with h | h <;> rw [h] <;> rfl
  · intro hstyle
    rw [Target.nameStyle] at hstyle
    rcases h with h | h <;> rw [h] at hstyle <;> cases hstyle

/-- The targets that a session makes for its models speak the dialect of its connection. -/
theorem legible_targetFor {c : Connection} (h : c.dialect = .sqlite) (m : Model) (lookup : String)
    (rows : List Row) : Legible (c.targetFor m) lookup rows := by
  have hdialect : (c.targetFor m).dialect = c.dialect := by
    unfold Connection.targetFor
    generalize c.dialect = d
    unfold Model.target
    cases m.updatedAt <;> rfl
  exact legible_of_dialect (.inl (hdialect.trans h)) lookup rows

theorem read_legible {t : Target} {now : Instant} {options : Options} {inputs : List Input}
    {c : Compiled} (hraw : options.raw = false) (h : compile t now options inputs = .ok c) :
    ∃ rows, stampedRows t now inputs = .ok rows ∧
      (∀ r ∈ rows, HasKey (lookupColumn t options) r) ∧
      (c.statement.Denotes .quoteDoubling (planOf t (lookupColumn t options) rows) ↔
        t.literalStyle = .quoteDoubling ∨ ∀ r ∈ rows, r.IsBare) ∧
      (Legible t (lookupColumn t options) rows →
        Sql.scan lexis c.statement.sql.toList =
          some (planOf t (lookupColumn t options) rows).tokens ∧
        Sql.Update.read lexis c.statement.sql =
          some (planOf t (lookupColumn t options) rows).update) := by
  obtain ⟨rows, hrows, hkeys, hcolumns, hc⟩ := Compiler.compile_eq_ok h
  obtain ⟨-, -, -, hlookup, hstyle, hr, hblocks⟩ := compiledColumns_eq_ok hc
  have hdenotes := statement_denotes_foreign_iff hkeys hc
  refine ⟨rows, hrows, hkeys, hdenotes, ?_⟩
  intro hlegible
  have hname : lexis.Quotes c.statement.style c.statement.lookup.toList := by
    rw [hstyle, hlookup]
    exact hlegible.quotes List.mem_cons_self
  have hnames : ∀ b ∈ c.statement.blocks, lexis.Quotes c.statement.style b.column.toList := by
    intro b hb
    rw [hstyle]
    apply hlegible.quotes
    have htouched : c.statement.blocks.map Block.column =
        touchedColumns (lookupColumn t options) rows := (forall₂_blockOf hblocks).1
    rw [← htouched]
    exact List.mem_cons_of_mem _ (List.mem_map_of_mem hb)
  have hfilled : (planOf t (lookupColumn t options) rows).Filled := filled_planOf hcolumns
  have hscan := (scan_quoted hnames hname rfl (hr.trans hraw) hfilled
    (hdenotes.mpr hlegible.literals)).1
  rw [← Statement.toList_sql] at hscan
  refine ⟨hscan, ?_⟩
  rw [Sql.Update.read, hscan]
  exact Plan.ofTokens?_tokens _ hfilled

/-- A statement is executed from its characters. -/
theorem execute_chars (db : Database) (st : Statement) : db.execute .numeric st.sql =
    ((Sql.scan lexis (st.chars.takeWhile (· ≠ '\x00'))).bind Sql.Update.ofTokens?).bind
      (db.run .numeric) := by
  rw [execute_eq, Sql.Update.read, String.toList_ofList, Statement.toList_sql]

namespace Session

variable (s : Session) (t : Target) (now : Instant) (options : Options) (inputs : List Input)

/-- The target of an update, with the columns of its table where the update must learn them. -/
def completed : Except Failure Target × Session :=
  if Event.learns t options inputs then s.bind t else (.ok t, s)

theorem update_eq_settle : s.update t now options inputs =
    match s.completed t options inputs with
    | (.error failure, s) => (.error failure, s)
    | (.ok t, s) => s.settle (prepare t now options inputs) := by
  unfold completed
  split_ifs with h
  · rw [s.update_of_learns t now h]
    unfold Session.bind
    generalize s.columns t = found
    obtain ⟨result, s'⟩ := found
    cases result with
    | error failure => rfl
    | ok columns => exact s'.update_eq (t.withColumns columns) now options inputs (.inr rfl)
  · exact s.update_of_not_learns t now (by simpa using h)

variable {s t options inputs}

/-- To learn columns changes neither what is updated nor where. -/
theorem completed_eq_ok {t' : Target} {s' : Session}
    (h : s.completed t options inputs = (.ok t', s')) :
    (∃ known, t' = { t with knownColumns := known }) ∧ s'.database = s.database ∧
      s'.answers = s.answers := by
  unfold completed at h
  split_ifs at h
  · unfold Session.bind at h
    have hdatabase : (s.columns t).2.database = s.database := rfl
    have hanswers : (s.columns t).2.answers = s.answers := rfl
    generalize s.columns t = found at h hdatabase hanswers
    obtain ⟨result, s''⟩ := found
    obtain ⟨hresult, rfl⟩ := Prod.mk.inj h
    obtain ⟨columns, -, rfl⟩ := map_eq_ok.mp hresult
    exact ⟨⟨some columns, rfl⟩, hdatabase, hanswers⟩
  · obtain ⟨hresult, rfl⟩ := Prod.mk.inj h
    exact ⟨⟨t.knownColumns, (Except.ok.inj hresult).symm⟩, rfl, rfl⟩

theorem execute_of_some {sql : String} {db : Database} {touched : Nat} (hanswers : s.answers)
    (h : s.database.execute .numeric sql = some (db, touched)) :
    s.execute sql = (.ok touched, { s with database := db }) := by
  rw [Session.execute, if_pos hanswers, h]

theorem execute_of_none {sql : String} (h : s.database.execute .numeric sql = none) :
    s.execute sql = (.error .database, s) := by
  unfold Session.execute
  rw [h]
  split_ifs <;> rfl

theorem update_of_compile {t' : Target} {s' : Session} {now : Instant} {c : Compiled}
    (hcompleted : s.completed t options inputs = (.ok t', s'))
    (h : compile t' now options inputs = .ok c) : s.update t now options inputs =
      ((s'.execute c.statement.sql).1.map some, (s'.execute c.statement.sql).2) := by
  have hne : inputs ≠ [] := by
    rintro rfl
    cases h
  rw [update_eq_settle, hcompleted]
  dsimp only
  rw [prepare, if_neg (by simpa using hne), h]
  rfl

/-- What a database reads from the statement of an update. The statement is compiled for the target
as it is, whatever its dialect, but for the columns that may have been learnt. Its literals denote
what is planned iff the dialect doubles quotes or no text has anything to escape. If the names can be
read, too, then the tokens are those of the plan and no others, and a table that has the columns is
changed as the rows ask for. Texts that are no JSON documents are planned and stored as they are. -/
theorem update_is_read {s' : Session} {t' : Target} {now : Instant} {c : Compiled}
    (hraw : options.raw = false) (hcompleted : s.completed t options inputs = (.ok t', s'))
    (h : compile t' now options inputs = .ok c) :
    s.update t now options inputs =
      ((s'.execute c.statement.sql).1.map some, (s'.execute c.statement.sql).2) ∧
    ∃ rows, stampedRows t now inputs = .ok rows ∧
      let lookup := lookupColumn t options
      let plan := planOf t lookup rows
      (c.statement.Denotes .quoteDoubling plan ↔
        t.literalStyle = .quoteDoubling ∨ ∀ r ∈ rows, r.IsBare) ∧
      (Legible t lookup rows →
        Sql.scan lexis c.statement.sql.toList = some plan.tokens ∧
        Sql.Update.read lexis c.statement.sql = some plan.update ∧
        (s.answers → plan.IsFinite → '\x00' ∉ c.statement.sql.toList → ∀ table,
          Serves s.database table t.qualifiedTable lookup (touchedColumns lookup rows) →
          s.update t now options inputs = (.ok (some (touchedCount lookup rows table)),
            { s' with
              database := s.database.replace (tableAfter .numeric lookup rows table) }))) ∧
      (∀ r ∈ rows, ∀ column change text, r.get? column = some change →
        scalar? change = some (.text text) → Sql.isDocument text = false →
        (column = lookup → text ∈ plan.keys) ∧
        (column ≠ lookup → ∃ branches, (column, branches) ∈ plan.blocks ∧
          (keyText (keyIn lookup r), .text text) ∈ branches)) ∧
      ∀ key column change text, column ≠ lookup →
        firstChange lookup rows key column = some change →
        scalar? change = some (.text text) → Sql.isDocument text = false →
        ∀ old, cellAfter .numeric lookup rows key column old = some text := by
  have hupdate := update_of_compile hcompleted h
  obtain ⟨⟨known, rfl⟩, hdatabase, hanswers⟩ := completed_eq_ok hcompleted
  obtain ⟨rows, hrows, hkeys, hdenotes, hlegible⟩ := read_legible hraw h
  refine ⟨hupdate, rows, hrows, hdenotes, ?_, ?_, ?_⟩
  · intro hl
    obtain ⟨hscan, hstatement⟩ := hlegible ⟨hl.literals, hl.names⟩
    refine ⟨hscan, hstatement, ?_⟩
    intro ha hfinite hnul table hserves
    have hrun : s'.database.execute .numeric c.statement.sql =
        some (s.database.replace (tableAfter .numeric (lookupColumn t options) rows table),
          touchedCount (lookupColumn t options) rows table) := by
      rw [hdatabase, execute_of_read hnul hstatement]
      exact hserves.run hfinite
    rw [hupdate, execute_of_some (hanswers.trans ha) hrun]
    rfl
  · intro r hr column change text hget hc htext
    constructor
    · rintro rfl
      exact List.mem_map.mpr ⟨r, hr, keyText_of_text (hkeys r hr) hget hc htext⟩
    · intro hne
      have hcolumn : column ∈ touchedColumns (lookupColumn t options) rows :=
        mem_touchedColumns.mpr ⟨hne, r, hr, Ordered.mem_keys_of_get? hget⟩
      exact ⟨_, List.mem_map.mpr ⟨column, hcolumn, rfl⟩, mem_plannedBranches hr hget hc htext⟩
  · intro key column change text hne hfirst hc htext
    exact cellAfter_of_text hne hfirst hc htext

/-- A text with a quote and a backslash, for another dialect that doubles quotes. -/
theorem update_is_read_of_quotes :
    let s := Session.start ⟨[⟨"t", ["id", "n"], [[some "1", some "x"]]⟩]⟩ ""
    let t := (Target.ofTable "t" "id").withDialect .postgres
    (s.update t ⟨⟨2024, 1, 1⟩, ⟨0, 0, 0, 0⟩⟩ .default
        [.row (.ofList [("id", .scalar (.int 1)), ("n", .scalar (.text "O'Neil\\"))])]) =
      (.ok (some 1), { s with
        database := ⟨[⟨"t", ["id", "n"], [[some "1", some "O'Neil\\"]]⟩]⟩ }) := by
  intro s t
  have h : compile t ⟨⟨2024, 1, 1⟩, ⟨0, 0, 0, 0⟩⟩ .default
      [.row (.ofList [("id", .scalar (.int 1)), ("n", .scalar (.text "O'Neil\\"))])] =
      .ok ⟨⟨"t", "id", .doubleQuote, false, [⟨"n", [⟨"1", .literal "O''Neil\\"⟩]⟩], ["1"]⟩,
        [.int 1]⟩ := rfl
  obtain ⟨-, rows, hrows, -, hread, -⟩ := update_is_read (s := s) (t := t) rfl rfl h
  cases hrows
  have hserves : Serves s.database ⟨"t", ["id", "n"], [[some "1", some "x"]]⟩ "t" "id" ["n"] :=
    Serves.single (by decide) (by decide) (by decide) (by decide)
  obtain ⟨-, -, hstored⟩ := hread (legible_of_dialect (.inr rfl) _ _)
  have hdatabase : s.database.replace (tableAfter .numeric "id"
      [.ofList [("id", .scalar (.int 1)), ("n", .scalar (.text "O'Neil\\"))]]
      ⟨"t", ["id", "n"], [[some "1", some "x"]]⟩) =
        ⟨[⟨"t", ["id", "n"], [[some "1", some "O'Neil\\"]]⟩]⟩ := by decide +kernel
  have hcount : touchedCount "id"
      [.ofList [("id", .scalar (.int 1)), ("n", .scalar (.text "O'Neil\\"))]]
      ⟨"t", ["id", "n"], [[some "1", some "x"]]⟩ = 1 := by decide +kernel
  have hnul : '\x00' ∉ (Statement.sql ⟨"t", "id", .doubleQuote, false,
      [⟨"n", [⟨"1", .literal "O''Neil\\"⟩]⟩], ["1"]⟩).toList := by
    rw [Statement.toList_sql]
    decide +kernel
  rw [← hdatabase, ← hcount]
  exact hstored rfl (by decide +kernel) hnul _ hserves

/-- A target whose dialect was left alone escapes by backslashes. The database stores the backslash
of an escape, or takes the text to end at a quote after it and refuses the statement. So it does with
a name in brackets that has a closing one. -/
theorem update_is_misread :
    let s := Session.start ⟨[⟨"t", ["id", "n", "a]"], [[some "1", some "x", none]]⟩]⟩ ""
    let t := Target.ofTable "t" "id"
    let now : Instant := ⟨⟨2024, 1, 1⟩, ⟨0, 0, 0, 0⟩⟩
    let row (column text : String) : Input :=
      .row (.ofList [("id", .scalar (.int 1)), (column, .scalar (.text text))])
    (s.update t now .default [row "n" "a\\b"] = (.ok (some 1), { s with
        database := ⟨[⟨"t", ["id", "n", "a]"], [[some "1", some "a\\\\b", none]]⟩]⟩ }) ∧
      Sql.isDocument "a\\b" = false) ∧
    (s.update t now .default [row "n" "O'Neil"] = (.error .database, s) ∧
      Sql.isDocument "O'Neil" = false) ∧
    s.update (t.withDialect .sqlServer) now .default [row "a]" "y"] = (.error .database, s) := by
  intro s t now row
  have hupdate {u : Target} {i : Input} {c : Compiled} (h : compile u now .default [i] = .ok c) :
      s.update u now .default [i] =
        ((s.execute c.statement.sql).1.map some, (s.execute c.statement.sql).2) :=
    update_of_compile rfl h
  refine ⟨⟨?_, by decide +kernel⟩, ⟨?_, by decide +kernel⟩, ?_⟩
  · have h : compile t now .default [row "n" "a\\b"] =
        .ok ⟨⟨"t", "id", .backtick, false, [⟨"n", [⟨"1", .literal "a\\\\b"⟩]⟩], ["1"]⟩,
          [.int 1]⟩ := rfl
    have hrun : s.database.execute .numeric
        (Statement.sql ⟨"t", "id", .backtick, false, [⟨"n", [⟨"1", .literal "a\\\\b"⟩]⟩], ["1"]⟩) =
        some (⟨[⟨"t", ["id", "n", "a]"], [[some "1", some "a\\\\b", none]]⟩]⟩, 1) := by
      rw [execute_chars]
      decide +kernel
    rw [hupdate h, execute_of_some rfl hrun]
    rfl
  · have h : compile t now .default [row "n" "O'Neil"] =
        .ok ⟨⟨"t", "id", .backtick, false, [⟨"n", [⟨"1", .literal "O\\'Neil"⟩]⟩], ["1"]⟩,
          [.int 1]⟩ := rfl
    rw [hupdate h, execute_of_none (by rw [execute_chars]; decide +kernel)]
    rfl
  · have h : compile (t.withDialect .sqlServer) now .default [row "a]" "y"] =
        .ok ⟨⟨"t", "id", .bracket, false, [⟨"a]", [⟨"1", .literal "y"⟩]⟩], ["1"]⟩, [.int 1]⟩ := rfl
    rw [hupdate h, execute_of_none (by rw [execute_chars]; decide +kernel)]
    rfl

end Session

end Database

end CaseUpdate
