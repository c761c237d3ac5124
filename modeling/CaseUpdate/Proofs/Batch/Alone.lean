import CaseUpdate.Proofs.Batch.Blocks

namespace CaseUpdate.Batch

open Calendar (Instant)

theorem mem_separated {separator : List Char} {c : Char} (hc : c ∉ separator) {α : Type}
    (f : α → List Char) (l : List α) : c ∈ separated separator (l.map f) ↔ ∃ a ∈ l, c ∈ f a := by
  induction l with
  | nil => simp [separated]
  | cons a rest ih =>
    cases rest with
    | nil => simp [separated]
    | cons a' rest =>
      rw [List.map_cons] at ih
      simp [separated, ih, hc]

/-- Whether a statement is part of another one: it says the same of the same table, with some of the
branches and some of the keys. -/
structure Statement.Within (st st' : Statement) : Prop where
  table : st.table = st'.table
  lookup : st.lookup = st'.lookup
  style : st.style = st'.style
  raw : st.raw = st'.raw
  blocks : ∀ b ∈ st.blocks, ∃ b' ∈ st'.blocks, b.column = b'.column ∧ b.branches ⊆ b'.branches
  keys : st.keys ⊆ st'.keys

namespace Statement

variable {st st' : Statement}

theorem nul_mem_chars_iff : '\x00' ∈ st.chars ↔
    '\x00' ∈ Sql.NameStyle.doubleQuote.quoteChars st.table ∨
      (∃ b ∈ st.blocks, '\x00' ∈ st.blockChars b) ∨
      '\x00' ∈ Sql.NameStyle.doubleQuote.quoteChars st.lookup ∨
      ∃ key ∈ st.keys, '\x00' ∈ quotedBody key := by
  have hblocks : '\x00' ∈ separated "\n,".toList (st.blocks.map st.blockChars) ↔ _ :=
    mem_separated (by decide) st.blockChars st.blocks
  have hkeys : '\x00' ∈ separated [','] (st.keys.map quotedBody) ↔ _ :=
    mem_separated (by decide) quotedBody st.keys
  unfold chars
  simp only [List.mem_append]
  rw [hblocks, hkeys]
  simp [or_assoc]

theorem nul_mem_blockChars_iff {b : Block} : '\x00' ∈ st.blockChars b ↔
    '\x00' ∈ st.style.quoteChars b.column ∨
      ∃ w ∈ b.branches, '\x00' ∈ st.branchChars b.column w := by
  have hbranches : '\x00' ∈ separated ['\n'] (b.branches.map (st.branchChars b.column)) ↔ _ :=
    mem_separated (by decide) (st.branchChars b.column) b.branches
  unfold blockChars
  simp only [List.mem_append]
  rw [hbranches]
  simp +contextual

/-- A NUL character in a part of a statement stands in the statement. -/
theorem Within.nul_mem (h : st.Within st') (hmem : '\x00' ∈ st.sql.toList) :
    '\x00' ∈ st'.sql.toList := by
  have hbranch : st.branchChars = st'.branchChars := by
    obtain ⟨htable, hlookup, hstyle, hraw, -, -⟩ := h
    cases st
    cases st'
    cases htable
    cases hlookup
    cases hstyle
    cases hraw
    rfl
  rw [toList_sql, nul_mem_chars_iff, h.table, h.lookup] at hmem
  rw [toList_sql, nul_mem_chars_iff]
  rcases hmem with htable | ⟨b, hb, hmem⟩ | hlookup | ⟨key, hkey, hmem⟩
  · exact .inl htable
  · obtain ⟨b', hb', hcolumn, hbranches⟩ := h.blocks b hb
    refine .inr (.inl ⟨b', hb', ?_⟩)
    rw [nul_mem_blockChars_iff, h.style, hcolumn, hbranch] at hmem
    rw [nul_mem_blockChars_iff]
    exact hmem.imp_right fun ⟨w, hw, hmem⟩ => ⟨w, hbranches hw, hmem⟩
  · exact .inr (.inr (.inl hlookup))
  · exact .inr (.inr (.inr ⟨key, h.keys hkey, hmem⟩))

end Statement

theorem grouped_subset {filed filed' : List (String × Branch)} (h : filed ⊆ filed') :
    ∀ b ∈ grouped filed, ∃ b' ∈ grouped filed',
      b.column = b'.column ∧ b.branches ⊆ b'.branches := by
  intro b hb
  obtain ⟨column, hcolumn, rfl⟩ := List.mem_map.mp hb
  have hcolumn' : column ∈ columnsOf filed' :=
    mem_columnsOf.mpr (List.map_subset _ h (mem_columnsOf.mp hcolumn))
  exact ⟨_, List.mem_map_of_mem hcolumn', rfl, List.map_subset _ (List.filter_subset _ h)⟩

section Entries

variable {target : Target} {now : Instant} {known : Option (List String)} {lookup : String}
  {options : Options}

theorem within_statementOf {e : Entry} {entries : List Entry} (he : e ∈ entries) :
    (statementOf target options [e]).statement.Within
      (statementOf target options entries).statement := by
  have hfiled : allFiled [e] ⊆ allFiled entries := by
    intro f hf
    rw [allFiled, List.flatMap_singleton] at hf
    exact List.mem_flatMap.mpr ⟨e, he, hf⟩
  have hkeys : [e].map Entry.literal ⊆ entries.map Entry.literal :=
    List.map_subset _ (by simpa using he)
  exact ⟨rfl, rfl, rfl, rfl, grouped_subset hfiled, hkeys⟩

/-- The number of a row counts only in what is said of a missing key. -/
theorem entryOf_index {index : Nat} {r : Row} {e : Entry}
    (h : entryOf target now known lookup index r = .ok e) (other : Nat) :
    entryOf target now known lookup other r = .ok e := by
  obtain ⟨key, hkey, h⟩ := bind_eq_ok.mp h
  obtain ⟨hget, hnull⟩ := keyOf_eq_ok hkey
  have hother : keyOf lookup other r = .ok key := by
    rw [keyOf, hget]
    exact if_neg hnull
  exact bind_eq_ok.mpr ⟨key, hother, h⟩

theorem exists_entryOf {index : Nat} {rows : List Row} {entries : List Entry}
    (h : entriesOf target now known lookup index rows = .ok entries) :
    ∀ r ∈ rows, ∃ e ∈ entries, entryOf target now known lookup 0 r = .ok e := by
  induction rows generalizing index entries with
  | nil => simp
  | cons r rest ih =>
    obtain ⟨e, he, h⟩ := bind_eq_ok.mp h
    obtain ⟨entries', hrest, h⟩ := bind_eq_ok.mp h
    cases h
    rw [List.forall_mem_cons]
    refine ⟨⟨e, by simp, entryOf_index he 0⟩, ?_⟩
    intro r' hr'
    obtain ⟨e', he', hentry⟩ := ih hrest r' hr'
    exact ⟨e', List.mem_cons_of_mem _ he', hentry⟩

end Entries

/-- How an input of a batch compiles when it is alone: to a part of the statement of the batch, or
not at all where its row has nothing but its key. -/
def CompilesAlone (target : Target) (now : Instant) (options : Options) (st : Statement) (i : Input)
    (r : Row) : Prop :=
  (touchedColumns (lookupColumn target options) [r] = [] ∧
    compile target now options [i] = .error (.nothingToUpdate (lookupColumn target options))) ∨
  ∃ c, compile target now options [i] = .ok c ∧ c.statement.Within st

/-- Whatever is in a batch that compiles also compiles alone, if there is something to update. -/
theorem Compiler.compile_alone {k : Compiler} {options : Options} {inputs : List Input}
    {c : Compiled} (h : (k.compile options inputs).1 = .ok c) {i : Input} (hi : i ∈ inputs) :
    ∃ r, stampedRows k.target k.now [i] = .ok [r] ∧
      CompilesAlone k.target k.now options c.statement i r := by
  rw [Compiler.compile_eq] at h
  obtain ⟨rows, hrows, h⟩ := bind_eq_ok.mp h
  obtain ⟨known, hknown, h⟩ := bind_eq_ok.mp h
  obtain ⟨entries, hentries, h⟩ := bind_eq_ok.mp h
  split_ifs at h
  cases h
  obtain ⟨r, hr, hrow⟩ := exists_of_mapM hrows hi
  obtain ⟨e, he, hentry⟩ := exists_entryOf hentries r hr
  obtain ⟨r', hstamped, hisEntry⟩ := isEntry_of_entryOf hentry
  have hinput : [i].mapM Input.toRow = .ok [r] := mapM_eq_ok.mpr (.cons hrow .nil)
  have hstamps : [r].mapM (stamped k.target k.now) = .ok [r'] :=
    mapM_eq_ok.mpr (.cons hstamped .nil)
  have hadmission : admission k.target options [r] = .ok known := by
    cases rows with
    | nil => cases hr
    | cons _ _ => exact hknown
  have halone : Batch.compile k.target k.now options [i] =
      if allFiled [e] = [] then .error (.nothingToUpdate (lookupColumn k.target options))
      else .ok (statementOf k.target options [e]) := by
    rw [Batch.compile_eq, compilePlainly, hinput, ok_bind, hadmission, ok_bind, entriesOf, hentry]
    rfl
  refine ⟨r', bind_eq_ok.mpr ⟨[r], hinput, hstamps⟩, ?_⟩
  by_cases hfiled : allFiled [e] = []
  · rw [if_pos hfiled] at halone
    have hcolumns := columnsOf_allFiled (.cons hisEntry .nil)
    rw [hfiled] at hcolumns
    exact .inl ⟨hcolumns.symm, halone⟩
  · rw [if_neg hfiled] at halone
    exact .inr ⟨_, halone, within_statementOf he⟩

end CaseUpdate.Batch
