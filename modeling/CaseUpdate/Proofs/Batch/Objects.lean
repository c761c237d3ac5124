import CaseUpdate.Proofs.Batch.Given
import CaseUpdate.Proofs.Batch.Plan
import CaseUpdate.Proofs.Sql.Structure

namespace CaseUpdate.Batch

open Json (Number)
open Calendar (Instant)

/-- An object for a column is assigned as a literal, and only where the column is not castable. -/
theorem assigned_object {target : Target} {column : String} {members : List (String × Json)}
    {a : Assigned} (h : assigned target column (.document (.object members)) = .ok a) :
    target.isCastable column = false ∧
      a = .literal (target.literalStyle.escapeText (Json.compact (.object members))) := by
  rw [assigned] at h
  split_ifs at h with hcastable
  cases h
  exact ⟨by simpa using hcastable, rfl⟩

/-- Whether a branch stores a text: it assigns a literal in quotes that denotes it. -/
def Branch.Stores (target : Target) (st : Statement) (column : String) (b : Branch)
    (text : String) : Prop :=
  ∃ body, b.value = .literal body ∧ st.assignedChars column b.value = quotedBody body ∧
    target.literalStyle.Denotes body text

theorem stores_object {target : Target} {st : Statement} {column : String} {key : Scalar}
    {members : List (String × Json)} {b : Branch} (hraw : st.raw = false)
    (hb : branchOf target column (key, .document (.object members)) = .ok b) :
    target.isCastable column = false ∧
      b.Stores target st column (Sql.storedText (Json.compact (.object members))) := by
  obtain ⟨value, hvalue, rfl⟩ := map_eq_ok.mp hb
  obtain ⟨hcastable, rfl⟩ := assigned_object hvalue
  refine ⟨hcastable, _, rfl, ?_, target.literalStyle.denotes_escapeText _⟩
  rw [Statement.assignedChars, hraw]
  rfl

/-- An object that is given for a column besides the lookup column is stored in the compact text of
what is read where it was written, with all of its containers, keys, texts and integers. That is the
compact text of the object itself, unless a real in it has digits from which another one is read. -/
theorem Compiler.objects_are_stored {k : Compiler} {options : Options} {inputs : List Input}
    {c : Compiled} {members : List (String × Json)} (hkeys : (Json.object members).HasUniqueKeys)
    (hrange : ∀ n ∈ (Json.object members).numbers, n.InRange)
    (hdoubles : ∀ negative x, .real negative x ∈ (Json.object members).numbers → x.IsDouble)
    (hraw : options.raw = false) (h : (k.compile options inputs).1 = .ok c) :
    ∃ rows, stampedRows k.target k.now inputs = .ok rows ∧
      (∀ i ∈ inputs, ∀ column, column ≠ lookupColumn k.target options →
        i.Gives column (.object members) → ∃ b ∈ c.statement.blocks, b.column = column) ∧
      ∀ b ∈ c.statement.blocks, List.Forall₂
        (fun p branch => p.1.Gives b.column (.object members) →
          k.target.isCastable b.column = false ∧
          branch.Stores k.target c.statement b.column
            (Json.compact (Json.object members).restored) ∧
          ((Json.object members).KeepsReals →
            branch.Stores k.target c.statement b.column (Json.compact (.object members))))
        (carriers b.column inputs rows) b.branches := by
  obtain ⟨rows, hrows, -, -, hc⟩ := Compiler.compile_eq_ok h
  obtain ⟨-, -, -, -, -, hstatement, hblocks⟩ := compiledColumns_eq_ok hc
  obtain ⟨hcolumns, hall⟩ := forall₂_blockOf hblocks
  refine ⟨rows, hrows, ?_, ?_⟩
  · intro i hi column hcolumn hgives
    obtain ⟨r, hr, hrow⟩ := exists_of_mapM (mapM_eq_ok.mpr (forall₂_stampedRows hrows)) hi
    have hget := hgives.get?_stamped (by simp [Change.ofJson, Scalar.ofJson?]) hrow
    have htouched : column ∈ c.statement.blocks.map Block.column := by
      rw [hcolumns]
      exact mem_touchedColumns.mpr ⟨hcolumn, r, hr, Ordered.mem_keys_of_get? hget⟩
    exact List.mem_map.mp htouched
  · intro b hb
    refine (forall₂_carriers hrows (hall b hb)).imp ?_
    rintro ⟨i, r⟩ branch ⟨hrow, change, hchange, hbranch⟩ hgives
    have hget := hgives.get?_stamped (by simp [Change.ofJson, Scalar.ofJson?]) hrow
    cases hchange.symm.trans hget
    obtain ⟨hcastable, hstores⟩ := stores_object (hstatement.trans hraw) hbranch
    rw [Sql.storedText_object hkeys] at hstores
    refine ⟨hcastable, hstores, fun hkept => ?_⟩
    rwa [hkept.restored_eq_self hrange hdoubles] at hstores

/-- An object with quotes in a key and in a text, an empty object, an integer and a real. -/
theorem Compiler.objects_are_stored_of_quotes :
    let members : List (String × Json) :=
      [("it's", .array [.text "a\"\\", .object [], .number (.integer (-7))]),
        ("r", .number (.real false ⟨7152557373046875, 21⟩))]
    let i : Input := .json (.object [("id", .number (.integer 1)), ("n", .object members)])
    ∃ c branch, ((Compiler.new (.ofTable "t" "id") ⟨⟨2024, 1, 1⟩, ⟨0, 0, 0, 0⟩⟩).compile .default
        [i]).1 = .ok c ∧ c.statement.blocks = [⟨"n", [branch]⟩] ∧
      branch.Stores (.ofTable "t" "id") c.statement "n"
        "\x7b\"it's\":[\"a\\\"\\\\\",\x7b\x7d,-7],\"r\":1.5e+22\x7d" := by
  intro members i
  have hkeys : (Json.object members).HasUniqueKeys := by
    simp [members, Json.HasUniqueKeys, Json.MembersHaveUniqueKeys, Json.ItemsHaveUniqueKeys]
  have hrange : ∀ n ∈ (Json.object members).numbers, n.InRange := by
    simp [members, Json.numbers, Json.numbersOfMembers, Json.numbersOfItems, Number.InRange]
  have hreals (negative : Bool) (x : Decimal.Magnitude)
      (hx : .real negative x ∈ (Json.object members).numbers) : x = ⟨7152557373046875, 21⟩ := by
    simp only [members, Json.numbers, Json.numbersOfMembers, Json.numbersOfItems, List.nil_append,
      List.append_nil, List.cons_append, List.mem_cons, reduceCtorEq, List.not_mem_nil, or_false,
      false_or, Number.real.injEq] at hx
    exact hx.2
  have hdoubles : ∀ negative x, .real negative x ∈ (Json.object members).numbers →
      x.IsDouble := by
    intro negative x hx
    rw [hreals negative x hx]
    constructor <;> decide
  have hkept : (Json.object members).KeepsReals := by
    refine .inr fun negative x hx => .inr (.inl ?_)
    rw [hreals negative x hx]
    constructor <;> decide +kernel
  have hcompact : Json.compact (.object members) =
      "\x7b\"it's\":[\"a\\\"\\\\\",\x7b\x7d,-7],\"r\":1.5e+22\x7d" := by decide +kernel
  have hgives : i.Gives "n" (.object members) := Input.gives_of_object (by decide) rfl
  obtain ⟨c, hc, hblocks⟩ := Option.map_eq_some_iff.mp (show
    (((Compiler.new (.ofTable "t" "id") ⟨⟨2024, 1, 1⟩, ⟨0, 0, 0, 0⟩⟩).compile .default
      [i]).1.toOption.map fun c => c.statement.blocks) = some [⟨"n", [⟨"1", .literal
        "\x7b\"it''s\":[\"a\\\\\"\\\\\\\\\",\x7b\x7d,-7],\"r\":1.5e+22\x7d"⟩]⟩] by decide +kernel)
  have h := toOption_eq_some.mp hc
  refine ⟨c, _, h, hblocks, ?_⟩
  obtain ⟨rows, -, -, hall⟩ := Compiler.objects_are_stored hkeys hrange hdoubles rfl h
  have hbranches := hall _ (by rw [hblocks]; exact List.mem_singleton_self _)
  obtain ⟨p, rest, hp, -, hcarriers⟩ := List.forall₂_cons_right_iff.mp hbranches
  have hmem : p ∈ [i].zip rows := by
    have hcarrier : p ∈ carriers "n" [i] rows := by
      rw [hcarriers]
      exact List.mem_cons_self
    exact (List.mem_filter.mp hcarrier).1
  have hinput : p.1 = i := List.mem_singleton.mp (List.of_mem_zip hmem).1
  obtain ⟨-, -, hstores⟩ := hp (hinput ▸ hgives)
  rw [← hcompact]
  exact hstores hkept

/-- A real that is read from its own digits as another one is stored as that one. -/
theorem Compiler.objects_lose_digits :
    ∃ c body, ((Compiler.new (.ofTable "t" "id") ⟨⟨2024, 1, 1⟩, ⟨0, 0, 0, 0⟩⟩).compile .default
        [.json (.object [("id", .number (.integer 1)),
          ("n", .object [("r", .number (.real false ⟨8940696716308594, 25⟩))])])]).1 = .ok c ∧
      c.statement.blocks = [⟨"n", [⟨"1", .literal body⟩]⟩] ∧
      Json.compact (.object [("r", .number (.real false ⟨8940696716308594, 25⟩))]) =
        "\x7b\"r\":3e+23\x7d" ∧
      Sql.LiteralStyle.backslash.Denotes body "\x7b\"r\":2.9999999999999997e+23\x7d" ∧
      ¬ Sql.LiteralStyle.backslash.Denotes body "\x7b\"r\":3e+23\x7d" := by
  obtain ⟨c, hc, hblocks⟩ := Option.map_eq_some_iff.mp (show
    (((Compiler.new (.ofTable "t" "id") ⟨⟨2024, 1, 1⟩, ⟨0, 0, 0, 0⟩⟩).compile .default
      [.json (.object [("id", .number (.integer 1)),
        ("n", .object [("r", .number (.real false ⟨8940696716308594, 25⟩))])])]).1.toOption.map
      fun c => c.statement.blocks) =
        some [⟨"n", [⟨"1", .literal "\x7b\"r\":2.9999999999999997e+23\x7d"⟩]⟩] by decide +kernel)
  refine ⟨c, _, toOption_eq_some.mp hc, hblocks, by decide +kernel, ?_, ?_⟩
  · rw [Sql.LiteralStyle.Denotes]
    decide +kernel
  · rw [Sql.LiteralStyle.Denotes]
    decide +kernel

end CaseUpdate.Batch
