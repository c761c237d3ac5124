import CaseUpdate.Batch.Compiler
import CaseUpdate.Proofs.Batch.Grouping

namespace CaseUpdate

namespace Ordered

variable {α : Type _}

theorem ofList_concat (entries : List (String × α)) (e : String × α) :
    ofList (entries ++ [e]) = put e.1 e.2 (ofList entries) := by
  rw [ofList, List.foldl_append]
  rfl

/-- Keys stand in the order in which they were first set. -/
theorem keys_ofList (entries : List (String × α)) :
    keys (ofList entries) = (keys entries).eraseDups := by
  induction entries using List.reverseRecOn with
  | nil => simp [ofList, keys]
  | append_singleton entries e ih =>
    have hkeys : keys (entries ++ [e]) = keys entries ++ [e.1] := List.map_append
    rw [ofList_concat, keys_put, hkeys, Batch.eraseDups_concat, ih]
    simp only [List.mem_eraseDups]

/-- A key has the value for which it was last set. -/
theorem get?_ofList (k : String) (entries : List (String × α)) :
    get? k (ofList entries) = (entries.reverse.find? fun e => e.1 = k).map Prod.snd := by
  induction entries using List.reverseRecOn with
  | nil => rfl
  | append_singleton entries e ih =>
    rw [ofList_concat, get?_put, List.reverse_append, List.reverse_singleton, List.singleton_append,
      List.find?_cons, ih]
    by_cases h : e.1 = k <;> simp [h]

end Ordered

namespace Row

/-- A step in the making of a row. -/
inductive Edit where
  | set (column : String) (s : Scalar)
  | increment (column : String) (op : Operator) (x : Operand)
  | json (column : String) (v : Json)
  | insert (column : String) (c : Change)
  /-- Begins a new row with these entries. -/
  | collect (entries : List (String × Change))

def edited (r : Row) : Edit → Row
  | .set column s => r.set column s
  | .increment column op x => r.increment column op x
  | .json column v => r.json column v
  | .insert column c => r.insert column c
  | .collect entries => ofList entries

/-- The row that steps make of the empty one. -/
def built (edits : List Edit) : Row := edits.foldl edited empty

namespace Edit

/-- What was given for the columns of a row, after one more step. -/
def appended (given : List (String × Change)) : Edit → List (String × Change)
  | .set column s => given ++ [(column, .scalar s)]
  | .increment column op x => given ++ [(column, .step ⟨op, x⟩)]
  | .json column v => given ++ [(column, .ofJson v)]
  | .insert column c => given ++ [(column, c)]
  | .collect entries => entries

/-- All that steps have given for the columns of a row, in the order of the steps. -/
def given (edits : List Edit) : List (String × Change) := edits.foldl appended []

end Edit

/-- The row of the members of an object, set one after another. -/
def chained (members : List (String × Json)) : Row :=
  members.foldl (fun r m => r.json m.1 m.2) empty

theorem insert_ofList (entries : List (String × Change)) (column : String) (c : Change) :
    (ofList entries).insert column c = ofList (entries ++ [(column, c)]) := by
  simp only [insert, ofList, Ordered.ofList_concat]

/-- A step keeps a row the collection of what was given for it. -/
theorem edited_ofList (given : List (String × Change)) (e : Edit) :
    (ofList given).edited e = ofList (e.appended given) := by
  cases e with
  | set column s => exact insert_ofList given column _
  | increment column op x => exact insert_ofList given column _
  | json column v => exact insert_ofList given column _
  | insert column c => exact insert_ofList given column c
  | collect entries => rfl

theorem built_eq (edits : List Edit) : built edits = ofList (Edit.given edits) := by
  induction edits using List.reverseRecOn with
  | nil => rfl
  | append_singleton edits e ih =>
    have hbuilt : built (edits ++ [e]) = (built edits).edited e := by
      rw [built, List.foldl_append]
      rfl
    have hgiven : Edit.given (edits ++ [e]) = e.appended (Edit.given edits) := by
      rw [Edit.given, List.foldl_append]
      rfl
    rw [hbuilt, hgiven, ih, edited_ofList]

theorem chained_eq (members : List (String × Json)) : chained members = ofMembers members := by
  induction members using List.reverseRecOn with
  | nil => rfl
  | append_singleton members m ih =>
    have hchained : chained (members ++ [m]) = (chained members).json m.1 m.2 := by
      rw [chained, List.foldl_append]
      rfl
    rw [hchained, ih, ofMembers, ofMembers, List.map_append]
    exact insert_ofList _ m.1 _

theorem size_ofList (entries : List (String × Change)) :
    (ofList entries).size = (Ordered.keys entries).toFinset.card := by
  have hlength : (ofList entries).size = (Ordered.keys entries).eraseDups.length := by
    rw [← Ordered.keys_ofList, Ordered.keys, List.length_map]
    rfl
  have hmembers : (Ordered.keys entries).toFinset = (Ordered.keys entries).eraseDups.toFinset := by
    ext column
    simp
  rw [hlength, hmembers, List.toFinset_card_of_nodup (Batch.nodup_eraseDups _)]

end Row

namespace Batch

/-- The shapes in which a JSON object can be an input: as a value, as its members, and as a row for
which the members were set one after another. -/
inductive Shape where
  | value
  | members
  | chain

def Shape.input (members : List (String × Json)) : Shape → Input
  | .value => .json (.object members)
  | .members => .row (.ofMembers members)
  | .chain => .row (.chained members)

theorem Shape.toRow_input (members : List (String × Json)) (shape : Shape) :
    (shape.input members).toRow = .ok (.ofMembers members) := by
  cases shape with
  | value => rfl
  | members => rfl
  | chain => rw [input, Input.toRow, Row.chained_eq]

/-- Inputs with the same rows compile to the same. -/
theorem Compiler.compile_congr (k : Compiler) (options : Options) {inputs inputs' : List Input}
    (h : inputs.mapM Input.toRow = inputs'.mapM Input.toRow) :
    k.compile options inputs = k.compile options inputs' := by
  rw [Compiler.compile, Compiler.compile, h]

end Batch

namespace Row

example : (built [.set "id" (.int 1), .set "name" (.text "a"), .set "id" (.int 2)]).columns =
    ["id", "name"] := by decide

end Row

end CaseUpdate
