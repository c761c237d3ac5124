import CaseUpdate.Batch.Compiler
import CaseUpdate.Proofs.Batch.Grouping
import CaseUpdate.Proofs.Except

namespace CaseUpdate.Batch

open Calendar (Instant)

/-- What a row contributes to a statement: its key, and the values that it assigns. -/
structure Entry where
  key : Scalar
  literal : String
  values : List (String × Assigned)

def Entry.filed (e : Entry) : List (String × Branch) :=
  e.values.map fun v => (v.1, ⟨e.literal, v.2⟩)

section Plain

variable (target : Target) (now : Instant) (known : Option (List String)) (lookup : String)

/-- What the changes of a row assign, up to the first one that is refused. -/
def assignments : List (String × Change) → Except Error (List (String × Assigned))
  | [] => .ok []
  | (column, c) :: rest => do
    let value ← contribution target known lookup column c
    let values ← assignments rest
    return (value.map fun v => (column, v)).toList ++ values

def entryOf (index : Nat) (r : Row) : Except Error Entry := do
  let key ← keyOf lookup index r
  let r ← stamped target now r
  let values ← assignments target known lookup r.entries
  return ⟨key, keyLiteral target key, values⟩

/-- The entries of rows, whose numbers go on from `index`. -/
def entriesOf : Nat → List Row → Except Error (List Entry)
  | _, [] => .ok []
  | index, r :: rest => do
    let e ← entryOf target now known lookup index r
    let entries ← entriesOf (index + 1) rest
    return e :: entries

theorem entriesOf_append (index : Nat) (before after : List Row) :
    entriesOf target now known lookup index (before ++ after) = do
      let entries ← entriesOf target now known lookup index before
      let later ← entriesOf target now known lookup (index + before.length) after
      return entries ++ later := by
  induction before generalizing index with
  | nil =>
    rw [List.nil_append, entriesOf, ok_bind]
    cases entriesOf target now known lookup index after <;> rfl
  | cons r rest ih =>
    have hindex : index + (r :: rest).length = index + 1 + rest.length := by
      rw [List.length_cons]
      omega
    rw [List.cons_append, entriesOf, entriesOf, ih, hindex]
    cases entryOf target now known lookup index r with
    | error e => rfl
    | ok e =>
      rw [ok_bind, ok_bind]
      cases entriesOf target now known lookup (index + 1) rest with
      | error e => rfl
      | ok entries =>
        rw [ok_bind, ok_bind]
        cases entriesOf target now known lookup (index + 1 + rest.length) after <;> rfl

end Plain

def allFiled (entries : List Entry) : List (String × Branch) := entries.flatMap Entry.filed

/-- The statement of entries, with their branches grouped by column. -/
def statementOf (target : Target) (options : Options) (entries : List Entry) : Compiled where
  statement := {
    table := target.qualifiedTable
    lookup := lookupColumn target options
    style := target.nameStyle
    raw := options.raw
    blocks := grouped (allFiled entries)
    keys := entries.map Entry.literal }
  keys := entries.map Entry.key

/-- Compiling without a compiler: all entries first, and then their statement. -/
def compilePlainly (target : Target) (now : Instant) (options : Options) (inputs : List Input) :
    Except Error Compiled := do
  let rows ← inputs.mapM Input.toRow
  let known ← admission target options rows
  let entries ← entriesOf target now known (lookupColumn target options) 0 rows
  if allFiled entries = [] then .error (.nothingToUpdate (lookupColumn target options))
  else return statementOf target options entries

section Gathering

variable (target : Target) (now : Instant) (known : Option (List String)) (lookup : String)

@[simp] theorem Gathered.push_keys (g : Gathered) (column : String) (b : Branch) :
    (g.push column b).keys = g.keys := by
  unfold Gathered.push Gathered.place
  cases Ordered.get? column g.positions <;> rfl

theorem Gathered.Represents.addKey {g : Gathered} {filed : List (String × Branch)}
    (h : g.Represents filed) (key : Scalar) : (g.addKey key).Represents filed :=
  ⟨h.blocks_eq, h.position_iff⟩

/-- How gathering ends beside a computation: with its error, or with a view of its result and a
state of which something holds. -/
inductive Follows {α β : Type} (view : β → α) (holds : β → Gathered → Prop) :
    Except Error α × Gathered → Except Error β → Prop
  | error (e : Error) (g : Gathered) : Follows view holds (.error e, g) (.error e)
  | ok {b : β} {g : Gathered} (h : holds b g) : Follows view holds (.ok (view b), g) (.ok b)

theorem gatherChanges_follows {g : Gathered} {filed : List (String × Branch)}
    (hg : g.Represents filed) (literal : String) (changes : List (String × Change)) :
    Follows (fun _ => ())
      (fun values g' => g'.Represents (filed ++ values.map fun v => (v.1, ⟨literal, v.2⟩)) ∧
        g'.keys = g.keys)
      (gatherChanges target known lookup literal g changes)
      (assignments target known lookup changes) := by
  -- Over all states and what they represent: a branch is filed before the rest is gathered.
  induction changes generalizing g filed with
  | nil =>
    apply Follows.ok
    simpa using hg
  | cons change rest ih =>
    obtain ⟨column, c⟩ := change
    rw [gatherChanges, assignments]
    cases contribution target known lookup column c with
    | error e => exact .error e g
    | ok value =>
      rw [ok_bind]
      cases value with
      | none =>
        have hrest := ih hg
        dsimp only
        generalize gatherChanges target known lookup literal g rest = result at hrest ⊢
        generalize assignments target known lookup rest = values at hrest ⊢
        cases hrest with
        | error e g' => exact .error e g'
        | ok h => exact .ok h
      | some value =>
        have hrest := ih (hg.push column ⟨literal, value⟩)
        dsimp only
        generalize gatherChanges target known lookup literal (g.push column ⟨literal, value⟩) rest =
          result at hrest ⊢
        generalize assignments target known lookup rest = values at hrest ⊢
        cases hrest with
        | error e g' => exact .error e g'
        | ok h =>
          obtain ⟨hrep, hkeys⟩ := h
          rw [Gathered.push_keys] at hkeys
          refine .ok ⟨?_, hkeys⟩
          simpa using hrep

theorem gatherRow_follows {g : Gathered} {filed : List (String × Branch)} (hg : g.Represents filed)
    (index : Nat) (r : Row) :
    Follows Entry.literal
      (fun e g' => g'.Represents (filed ++ e.filed) ∧ g'.keys = g.keys ++ [e.key])
      (gatherRow target now known lookup g index r)
      (entryOf target now known lookup index r) := by
  unfold gatherRow entryOf
  cases keyOf lookup index r with
  | error e => exact .error e g
  | ok key =>
    rw [ok_bind]
    cases stamped target now r with
    | error e => exact .error e g
    | ok r =>
      rw [ok_bind]
      have hchanges :=
        gatherChanges_follows target known lookup hg (keyLiteral target key) r.entries
      dsimp only
      generalize gatherChanges target known lookup (keyLiteral target key) g r.entries = result
        at hchanges ⊢
      generalize assignments target known lookup r.entries = values at hchanges ⊢
      cases hchanges with
      | error e g' => exact .error e g'
      | @ok values g' h =>
        obtain ⟨hrep, hkeys⟩ := h
        apply Follows.ok (b := Entry.mk key (keyLiteral target key) values)
        refine ⟨hrep.addKey key, ?_⟩
        rw [Gathered.addKey, hkeys]

theorem gatherRows_follows {g : Gathered} {filed : List (String × Branch)}
    (hg : g.Represents filed) (index : Nat) (rows : List Row) :
    Follows (List.map Entry.literal)
      (fun entries g' => g'.Represents (filed ++ allFiled entries) ∧
        g'.keys = g.keys ++ entries.map Entry.key)
      (gatherRows target now known lookup g index rows)
      (entriesOf target now known lookup index rows) := by
  induction rows generalizing g filed index with
  | nil =>
    rw [gatherRows, entriesOf]
    apply Follows.ok (b := [])
    simpa [allFiled] using hg
  | cons r rest ih =>
    have hrow := gatherRow_follows target now known lookup hg index r
    rw [gatherRows, entriesOf]
    generalize gatherRow target now known lookup g index r = result at hrow ⊢
    generalize entryOf target now known lookup index r = entry at hrow ⊢
    cases hrow with
    | error e g' => exact .error e g'
    | @ok e g' h =>
      obtain ⟨hrep, hkeys⟩ := h
      have hrest := ih hrep (index + 1)
      rw [ok_bind]
      dsimp only
      generalize gatherRows target now known lookup g' (index + 1) rest = result at hrest ⊢
      generalize entriesOf target now known lookup (index + 1) rest = entries at hrest ⊢
      cases hrest with
      | error e g'' => exact .error e g''
      | ok h =>
        obtain ⟨hrep', hkeys'⟩ := h
        apply Follows.ok (b := e :: _)
        refine ⟨?_, ?_⟩
        · simpa [allFiled] using hrep'
        · simp [hkeys', hkeys]

end Gathering

theorem grouped_isEmpty (filed : List (String × Branch)) :
    (grouped filed).isEmpty ↔ filed = [] := by
  rw [List.isEmpty_iff, grouped, List.map_eq_nil_iff]
  constructor
  · intro h
    cases filed with
    | nil => rfl
    | cons f rest =>
      have hf : f.1 ∈ columnsOf (f :: rest) := mem_columnsOf.mpr (by simp)
      rw [h] at hf
      cases hf
  · rintro rfl
    rfl

/-- What a compiler answers depends on the batch alone, and it is the statement of the entries. -/
theorem Compiler.compile_eq (c : Compiler) (options : Options) (inputs : List Input) :
    (c.compile options inputs).1 = compilePlainly c.target c.now options inputs := by
  unfold Compiler.compile compilePlainly
  cases inputs.mapM Input.toRow with
  | error e => rfl
  | ok rows =>
    simp only [Compiler.compileRows, Compiler.reset, ok_bind]
    cases admission c.target options rows with
    | error e => rfl
    | ok known =>
      simp only [ok_bind]
      have hrows := gatherRows_follows c.target c.now known (lookupColumn c.target options)
        Gathered.represents_empty 0 rows
      generalize gatherRows c.target c.now known (lookupColumn c.target options) .empty 0 rows =
        result at hrows ⊢
      generalize entriesOf c.target c.now known (lookupColumn c.target options) 0 rows = entries
        at hrows ⊢
      cases hrows with
      | error e g => rfl
      | @ok entries g h =>
        obtain ⟨hrep, hkeys⟩ := h
        have hblocks : g.blocks = grouped (allFiled entries) := hrep.blocks_eq
        have hkeys : g.keys = entries.map Entry.key := hkeys
        simp only [ok_bind]
        rw [hblocks]
        by_cases hn : allFiled entries = []
        · rw [if_pos ((grouped_isEmpty _).mpr hn), if_pos hn]
        · rw [if_neg (fun h => hn ((grouped_isEmpty _).mp h)), if_neg hn]
          rw [compiledOf, hblocks, hkeys]
          rfl

theorem compile_eq (target : Target) (now : Instant) (options : Options) (inputs : List Input) :
    compile target now options inputs = compilePlainly target now options inputs :=
  (Compiler.new target now).compile_eq options inputs

end CaseUpdate.Batch
