import CaseUpdate.Proofs.Batch.Given
import CaseUpdate.Proofs.Batch.Reading
import CaseUpdate.Proofs.Database.Rows
import CaseUpdate.Proofs.Decimal.Plain
import CaseUpdate.Proofs.Json.Numbers

namespace CaseUpdate.Batch

open Sql (LiteralStyle isDocument storedText)
open Calendar (Instant)

/-- Whether a literal denotes what an input gives for the lookup column: a text, which is in compact
form if it is a JSON document; or an integer in digits, which beyond 64 signed bits are those of the
nearest double. -/
structure DenotesKey (style : LiteralStyle) (lookup : String) (i : Input) (literal : String) :
    Prop where
  text : ∀ s, i.Gives lookup (.text s) → style.Denotes literal (storedText s)
  integer : ∀ n, Decimal.isWord n → i.Gives lookup (.number (.integer n)) →
    style.Denotes literal (String.ofList (Json.integerChars n))
  great : ∀ n, 0x8000000000000000 ≤ n → i.Gives lookup (.number (.integer n)) →
    style.Denotes literal (String.ofList (Decimal.Double.ofInt n).plain)

section Rows

variable {target : Target} {now : Instant} {lookup : String} {i : Input} {r : Row} {s : Scalar}

/-- A scalar that is given for the lookup column is the key of the row with its stamp. -/
theorem Input.Gives.keyIn {v : Json} (h : i.Gives lookup v) (hs : Scalar.ofJson? v = some s)
    (hnull : s ≠ .null) (hr : (i.toRow >>= stamped target now) = .ok r) : keyIn lookup r = s := by
  have hchange : Change.ofJson v = .scalar s := by rw [Change.ofJson, hs]
  have hget := h.get?_stamped (by simpa [hchange] using hnull) hr
  rw [Batch.keyIn, hget, hchange]

theorem denotes_of_keyIn {key : Scalar} {text : String} (hkey : keyIn lookup r = key)
    (htext : key.stored? = some text) :
    target.literalStyle.Denotes (keyLiteral target (keyIn lookup r)) text := by
  have hnull : key ≠ .null := by
    rintro rfl
    cases htext
  have hkeyText : keyText key = text := by rw [keyText, htext, Option.getD_some]
  rw [hkey, ← hkeyText]
  exact denotes_keyLiteral target hnull

theorem ofJson?_of_isWord {n : Int} (h : Decimal.isWord n) :
    Scalar.ofJson? (.number (.integer n)) = some (.int n) := by
  simp [Scalar.ofJson?, Json.Number.word?, h]

theorem ofJson?_of_great {n : Int} (h : 0x8000000000000000 ≤ n) :
    Scalar.ofJson? (.number (.integer n)) = some (.float (.ofInt n)) := by
  have hword : Decimal.isWord n = false := by
    rw [Decimal.isWord, decide_eq_false_iff_not]
    omega
  simp [Scalar.ofJson?, Json.Number.word?, hword, Json.Number.toDouble]

theorem denotesKey_of_row (hr : (i.toRow >>= stamped target now) = .ok r) :
    DenotesKey target.literalStyle lookup i (keyLiteral target (keyIn lookup r)) where
  text s hs := denotes_of_keyIn (hs.keyIn rfl (by simp) hr) rfl
  integer n hword hn :=
    denotes_of_keyIn (hn.keyIn (ofJson?_of_isWord hword) (by simp) hr) rfl
  great n hgreat hn :=
    denotes_of_keyIn (hn.keyIn (ofJson?_of_great hgreat) (by simp) hr) rfl

end Rows

section Batches

variable {target : Target} {now : Instant} {lookup : String} {inputs : List Input}
  {rows : List Row}

/-- Any text that is given for the lookup column is one that a key denotes. -/
theorem exists_denotes_key (h : stampedRows target now inputs = .ok rows) {i : Input}
    (hi : i ∈ inputs) {s : String} (hs : i.Gives lookup (.text s)) :
    ∃ literal ∈ rows.map fun r => keyLiteral target (keyIn lookup r),
      target.literalStyle.Denotes literal (storedText s) := by
  obtain ⟨r, hr, hrow⟩ := exists_of_mapM (mapM_eq_ok.mpr (forall₂_stampedRows h)) hi
  exact ⟨_, List.mem_map_of_mem hr, (denotesKey_of_row hrow).text s hs⟩

theorem denotesKey_keys (lookup : String) (h : stampedRows target now inputs = .ok rows) :
    List.Forall₂ (DenotesKey target.literalStyle lookup) inputs
      (rows.map fun r => keyLiteral target (keyIn lookup r)) :=
  List.forall₂_map_right_iff.mpr ((forall₂_stampedRows h).imp fun _ _ => denotesKey_of_row)

/-- In the block of a column the keys are those of the rows that carry it. -/
theorem branchKeys_blockOf {column : String} {b : Block}
    (h : blockOf target lookup rows column = .ok b) :
    b.branches.map Branch.key =
      ((rows.zip (rows.map fun r => keyLiteral target (keyIn lookup r))).filter
        fun p => (p.1.get? column).isSome).map Prod.snd := by
  have hkeys : b.branches.map Branch.key =
      (carried lookup column rows).map fun g => keyLiteral target g.1 := by
    obtain ⟨-, hbranches⟩ := blockOf_eq_ok h
    rw [← List.forall₂_eq_eq_eq, List.forall₂_map_left_iff, List.forall₂_map_right_iff]
    refine hbranches.flip.imp fun branch g hg => ?_
    obtain ⟨value, -, rfl⟩ := map_eq_ok.mp hg
    rfl
  rw [hkeys]
  clear h hkeys
  induction rows with
  | nil => rfl
  | cons r rest ih =>
    rw [carried] at ih ⊢
    cases hr : r.get? column <;> simp [hr, ih]

end Batches

theorem denotes_unique {style : LiteralStyle} {literal s s' : String}
    (h : style.Denotes literal s) (h' : style.Denotes literal s') : s = s' :=
  String.toList_inj.mp (Option.some.inj (h.symm.trans h'))

theorem integerChars_inj {n n' : Int} (h : Decimal.isWord n) (h' : Decimal.isWord n')
    (heq : Json.integerChars n = Json.integerChars n') : n = n' := by
  have hrange (n : Int) (h : Decimal.isWord n) : (Json.Number.integer n).InRange := by
    have hword := of_decide_eq_true h
    constructor <;> omega
  have hread : (Json.Number.integer n).reread = (Json.Number.integer n').reread := by
    rw [Json.Number.reread, Json.Number.reread, Json.Number.chars, Json.Number.chars, heq]
  rw [Json.reread_integer (hrange n h), Json.reread_integer (hrange n' h')] at hread
  cases hread
  rfl

/-- Whether two integers become the same key: they are the same, or both of them are beyond 64 signed
bits and have the same nearest double. -/
def SameInteger (n n' : Int) : Prop :=
  n = n' ∨ (0x8000000000000000 ≤ n ∧ 0x8000000000000000 ≤ n' ∧
    Decimal.Double.ofInt n = Decimal.Double.ofInt n')

section Separation

variable {style : LiteralStyle} {lookup literal : String} {i j : Input}

theorem DenotesKey.separates_texts (hi : DenotesKey style lookup i literal)
    (hj : DenotesKey style lookup j literal) {s s' : String} (hs : i.Gives lookup (.text s))
    (hs' : j.Gives lookup (.text s')) : storedText s = storedText s' :=
  denotes_unique (hi.text s hs) (hj.text s' hs')

theorem DenotesKey.separates_integers (hi : DenotesKey style lookup i literal)
    (hj : DenotesKey style lookup j literal) {n n' : Int}
    (hrange : (Json.Number.integer n).InRange) (hrange' : (Json.Number.integer n').InRange)
    (hn : i.Gives lookup (.number (.integer n))) (hn' : j.Gives lookup (.number (.integer n'))) :
    SameInteger n n' := by
  obtain ⟨hlow, hhigh⟩ := hrange
  obtain ⟨hlow', hhigh'⟩ := hrange'
  have hword {n : Int} (hlow : -0x8000000000000000 ≤ n) (h : n < 0x8000000000000000) :
      Decimal.isWord n := decide_eq_true ⟨hlow, h⟩
  rcases lt_or_ge n 0x8000000000000000 with hsmall | hgreat
  · have hdigits := hi.integer n (hword hlow hsmall) hn
    rcases lt_or_ge n' 0x8000000000000000 with hsmall' | hgreat'
    · have hdigits' := hj.integer n' (hword hlow' hsmall') hn'
      exact .inl (integerChars_inj (hword hlow hsmall) (hword hlow' hsmall')
        (String.ofList_inj.mp (denotes_unique hdigits hdigits')))
    · have heq := String.ofList_inj.mp (denotes_unique hdigits (hj.great n' hgreat' hn'))
      exact absurd heq (Decimal.integerChars_ne_plain (hword hlow hsmall) hgreat' hhigh')
  · have hdigits := hi.great n hgreat hn
    rcases lt_or_ge n' 0x8000000000000000 with hsmall' | hgreat'
    · have heq := String.ofList_inj.mp
        (denotes_unique (hj.integer n' (hword hlow' hsmall') hn') hdigits)
      exact absurd heq (Decimal.integerChars_ne_plain (hword hlow' hsmall') hgreat hhigh)
    · have heq := String.ofList_inj.mp (denotes_unique hdigits (hj.great n' hgreat' hn'))
      exact .inr ⟨hgreat, hgreat', Decimal.Double.ofInt_plain_inj hgreat hhigh hgreat' hhigh' heq⟩

end Separation

/-- A row of a table is touched if its lookup cell holds what is stored for a text that is given for
the lookup column. -/
theorem touches_of_gives {target : Target} {now : Instant} {lookup s : String}
    {inputs : List Input} {rows : List Row} (hrows : stampedRows target now inputs = .ok rows)
    {i : Input} (hi : i ∈ inputs) (hs : i.Gives lookup (.text s)) {columns : List String}
    {row : List Database.Cell}
    (hcell : Database.cell? columns row lookup = some (some (storedText s))) :
    Database.touches (planOf target lookup rows).update columns row := by
  obtain ⟨r, hr, hrow⟩ := exists_of_mapM (mapM_eq_ok.mpr (forall₂_stampedRows hrows)) hi
  have hkey : keyText (keyIn lookup r) = storedText s := by
    rw [hs.keyIn rfl (by simp) hrow]
    rfl
  have hvalue : Database.nameValue columns row (planOf target lookup rows).update.lookup =
      some (storedText s) := Database.nameValue_of_cell? hcell
  have hkeys : (planOf target lookup rows).update.keys =
      rows.map fun r => keyText (keyIn lookup r) := rfl
  rw [Database.touches, hvalue, hkeys, List.contains_iff_mem]
  exact List.mem_map.mpr ⟨r, hr, hkey⟩

/-- The literal of a key denotes what its row was given for the lookup column, both among the keys
and in the branches of the row. Rows with different texts, or with different integers, have different
literals, but for texts that are JSON documents of the same value, and integers beyond 64 signed bits
of the same nearest double. A text that is given is among those that the keys denote, and a row of a
table is touched if the text stands in its lookup cell; raw values may make of the statement what they
like. -/
theorem Compiler.keys_denote_what_is_given {k : Compiler} {options : Options} {inputs : List Input}
    {c : Compiled} (h : (k.compile options inputs).1 = .ok c) :
    ∃ rows, stampedRows k.target k.now inputs = .ok rows ∧
      List.Forall₂ (DenotesKey k.target.literalStyle (lookupColumn k.target options)) inputs
        c.statement.keys ∧
      (∀ b ∈ c.statement.blocks, b.branches.map Branch.key =
        ((rows.zip c.statement.keys).filter fun p => (p.1.get? b.column).isSome).map Prod.snd) ∧
      (∀ p ∈ inputs.zip c.statement.keys, ∀ q ∈ inputs.zip c.statement.keys, p.2 = q.2 →
        (∀ s s', p.1.Gives (lookupColumn k.target options) (.text s) →
          q.1.Gives (lookupColumn k.target options) (.text s') → storedText s = storedText s') ∧
        (∀ n n', (Json.Number.integer n).InRange → (Json.Number.integer n').InRange →
          p.1.Gives (lookupColumn k.target options) (.number (.integer n)) →
          q.1.Gives (lookupColumn k.target options) (.number (.integer n')) →
          SameInteger n n')) ∧
      (∀ i ∈ inputs, ∀ s, i.Gives (lookupColumn k.target options) (.text s) →
        ∃ literal ∈ c.statement.keys, k.target.literalStyle.Denotes literal (storedText s)) ∧
      (options.raw = false → ∃ u, Sql.Update.read k.target.dialect.lexis c.statement.sql = some u ∧
        ∀ i ∈ inputs, ∀ s, i.Gives (lookupColumn k.target options) (.text s) → ∀ columns row,
          Database.cell? columns row (lookupColumn k.target options) = some (some (storedText s)) →
          Database.touches u columns row) := by
  obtain ⟨rows, hrows, -, -, hc⟩ := Compiler.compile_eq_ok h
  obtain ⟨hk, hliterals, -, -, -, -, hblocks⟩ := compiledColumns_eq_ok hc
  obtain ⟨-, hall⟩ := forall₂_blockOf hblocks
  have hkeys : c.statement.keys =
      rows.map fun r => keyLiteral k.target (keyIn (lookupColumn k.target options) r) := by
    rw [hliterals, hk, List.map_map]
    rfl
  have hdenotes := denotesKey_keys (lookupColumn k.target options) hrows
  rw [← hkeys] at hdenotes
  refine ⟨rows, hrows, hdenotes, ?_, ?_, ?_, ?_⟩
  · intro b hb
    rw [hkeys]
    exact branchKeys_blockOf (hall b hb)
  · rintro ⟨i, literal⟩ hi ⟨j, literal'⟩ hj rfl
    obtain ⟨-, hzip⟩ := List.forall₂_iff_zip.mp hdenotes
    refine ⟨?_, ?_⟩
    · intro s s' hs hs'
      exact (hzip hi).separates_texts (hzip hj) hs hs'
    · intro n n' hrange hrange' hn hn'
      exact (hzip hi).separates_integers (hzip hj) hrange hrange' hn hn'
  · intro i hi s hs
    rw [hkeys]
    exact exists_denotes_key hrows hi hs
  · intro hraw
    obtain ⟨rows', hrows', -, hread, -⟩ :=
      Compiler.read_statement k.target.dialect.lexis rfl rfl rfl hraw h
    cases hrows.symm.trans hrows'
    refine ⟨_, hread, ?_⟩
    intro i hi s hs columns row hcell
    exact touches_of_gives hrows hi hs hcell

/-- A text with quotes and a negative integer. -/
theorem Compiler.keys_denote_what_is_given_of_two :
    ∃ c : Compiled, ((Compiler.new (.ofTable "t" "id") ⟨⟨2024, 1, 1⟩, ⟨0, 0, 0, 0⟩⟩).compile .default
        [.json (.object [("id", .text "O'Neil"), ("n", .null)]),
          .json (.object [("id", .number (.integer (-7))), ("n", .null)])]).1 = .ok c ∧
      c.statement.keys = ["O\\'Neil", "-7"] ∧
      LiteralStyle.backslash.Denotes "O\\'Neil" "O'Neil" ∧
      LiteralStyle.backslash.Denotes "-7" "-7" := by
  obtain ⟨c, hc, hkeys⟩ := Option.map_eq_some_iff.mp (show
    (((Compiler.new (.ofTable "t" "id") ⟨⟨2024, 1, 1⟩, ⟨0, 0, 0, 0⟩⟩).compile .default
      [.json (.object [("id", .text "O'Neil"), ("n", .null)]),
        .json (.object [("id", .number (.integer (-7))), ("n", .null)])]).1.toOption.map
      fun c => c.statement.keys) = some ["O\\'Neil", "-7"] by decide +kernel)
  have h := toOption_eq_some.mp hc
  obtain ⟨rows, -, hdenotes, -⟩ := Compiler.keys_denote_what_is_given h
  rw [hkeys] at hdenotes
  obtain ⟨hname, hrest⟩ := List.forall₂_cons.mp hdenotes
  obtain ⟨hinteger, -⟩ := List.forall₂_cons.mp hrest
  refine ⟨c, h, hkeys, ?_, ?_⟩
  · have hstored : storedText "O'Neil" = "O'Neil" := by decide +kernel
    have htext := hname.text "O'Neil" (Input.gives_of_object (by decide) rfl)
    rwa [hstored] at htext
  · have hdigits : String.ofList (Json.integerChars (-7)) = "-7" := by decide +kernel
    have hseven := hinteger.integer (-7) (by decide) (Input.gives_of_object (by decide) rfl)
    rwa [hdigits] at hseven

/-- Texts that are the same JSON document have one literal, which denotes only one of them, and the
digits of an integer beyond 64 signed bits are not its own. -/
theorem Compiler.keys_of_same_document :
    ∃ c : Compiled, ((Compiler.new (.ofTable "t" "id") ⟨⟨2024, 1, 1⟩, ⟨0, 0, 0, 0⟩⟩).compile .default
        [.json (.object [("id", .text "[1]"), ("n", .null)]),
          .json (.object [("id", .text "[ 1]"), ("n", .null)]),
          .json (.object [("id", .number (.integer 18446744073709551615)), ("n", .null)])]).1 =
        .ok c ∧
      c.statement.keys = ["[1]", "[1]", "18446744073709552000"] ∧
      ¬ LiteralStyle.backslash.Denotes "[1]" "[ 1]" ∧
      ¬ LiteralStyle.backslash.Denotes "18446744073709552000" "18446744073709551615" := by
  obtain ⟨c, hc, hkeys⟩ := Option.map_eq_some_iff.mp (show
    (((Compiler.new (.ofTable "t" "id") ⟨⟨2024, 1, 1⟩, ⟨0, 0, 0, 0⟩⟩).compile .default
      [.json (.object [("id", .text "[1]"), ("n", .null)]),
        .json (.object [("id", .text "[ 1]"), ("n", .null)]),
        .json (.object [("id", .number (.integer 18446744073709551615)), ("n", .null)])]).1.toOption.map
      fun c => c.statement.keys) = some ["[1]", "[1]", "18446744073709552000"] by decide +kernel)
  refine ⟨c, toOption_eq_some.mp hc, hkeys, ?_, ?_⟩
  · rw [LiteralStyle.Denotes]
    decide +kernel
  · rw [LiteralStyle.Denotes]
    decide +kernel

end CaseUpdate.Batch
