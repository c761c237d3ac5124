import CaseUpdate.Database.Session
import CaseUpdate.Proofs.Batch.Reuse

namespace CaseUpdate

open Batch (Compiled Compiler Error Input Options UpdateError)
open Calendar (Instant)

namespace Batch

variable {m : Type → Type} {ε α : Type}

/-- What an update of a batch comes to: a statement, or nothing without rows. -/
def prepare (target : Target) (now : Instant) (options : Options) (inputs : List Input) :
    Except Error (Option Compiled) :=
  if inputs.isEmpty then .ok none else (compile target now options inputs).map some

/-- Hands a statement to an executor, if there is one. -/
def carryOut [Monad m] (execute : String → m (Except ε α)) :
    Except Error (Option Compiled) → m (Except (UpdateError ε) (Option α))
  | .error e => pure (.error (.compile e))
  | .ok none => pure (.ok none)
  | .ok (some c) => do
    let r ← execute c.statement.sql
    return (r.map some).mapError .execute

theorem mapM_toRow_rows (rows : List Row) : (rows.map Input.row).mapM Input.toRow = .ok rows :=
  mapM_eq_ok.mpr (List.forall₂_map_left_iff.mpr (List.forall₂_same.mpr fun _ _ => rfl))

/-- It does not matter whether inputs are made rows before or while they are compiled. -/
theorem compile_rows (target : Target) (now : Instant) (options : Options) {inputs : List Input}
    {rows : List Row} (h : inputs.mapM Input.toRow = .ok rows) :
    compile target now options (rows.map Input.row) = compile target now options inputs := by
  unfold compile Compiler.compile
  rw [h, mapM_toRow_rows]

theorem compile_of_error {target : Target} {now : Instant} {options : Options}
    {inputs : List Input} {e : Error} (h : inputs.mapM Input.toRow = .error e) :
    compile target now options inputs = .error e := by
  unfold compile Compiler.compile
  rw [h]

/-- With any executor a compiler prepares the whole batch before it hands over one statement. -/
theorem Compiler.update_eq_carryOut [Monad m] [LawfulMonad m] (k : Compiler) (options : Options)
    (inputs : List Input) (execute : String → m (Except ε α)) :
    Prod.fst <$> k.update options inputs execute =
      carryOut execute (prepare k.target k.now options inputs) := by
  unfold update prepare
  by_cases hnil : inputs.isEmpty
  · rw [if_pos hnil, if_pos hnil, map_pure]
    rfl
  · rw [if_neg hnil, if_neg hnil, compile_eq_new, Batch.compile]
    generalize (new k.target k.now).compile options inputs = result
    obtain ⟨answer, k'⟩ := result
    cases answer with
    | error e => exact map_pure Prod.fst _
    | ok c =>
      simp only [carryOut, Except.map, map_bind]
      congr 1
      funext r
      cases r <;> exact map_pure Prod.fst _

end Batch

namespace Database

def Failure.ofUpdate : UpdateError Failure → Failure
  | .compile e => .compile e
  | .execute e => e

namespace Session

/-- The executor for a session's database. -/
def executor (sql : String) : StateM Session (Except Failure Nat) := fun s => s.execute sql

theorem run_executor (s : Session) (sql : String) : (executor sql).run s = s.execute sql := by
  rw [StateT.run, executor]

/-- An update by a compiler for the target, on a session's database. -/
def updateByCompiler (s : Session) (t : Target) (now : Instant) (options : Options)
    (inputs : List Input) : Except Failure (Option Nat) × Session :=
  let ((result, _), s) := ((Compiler.new t now).update options inputs executor).run s
  (result.mapError .ofUpdate, s)

/-- What the executor leaves, by what a batch comes to: without a statement nothing happens. -/
def settle (s : Session) : Except Error (Option Compiled) → Except Failure (Option Nat) × Session
  | .error e => (.error (.compile e), s)
  | .ok none => (.ok none, s)
  | .ok (some c) => ((s.execute c.statement.sql).1.map some, (s.execute c.statement.sql).2)

theorem run_carryOut (s : Session) (p : Except Error (Option Compiled)) :
    ((fun r => r.mapError Failure.ofUpdate) <$> Batch.carryOut executor p).run s = s.settle p := by
  cases p with
  | error e => rfl
  | ok c =>
    cases c with
    | none => rfl
    | some c =>
      simp only [Batch.carryOut, settle, map_bind, StateT.run_bind, StateT.run_map,
        StateT.run_pure, run_executor]
      generalize s.execute c.statement.sql = r
      obtain ⟨result, s'⟩ := r
      cases result <;> rfl

theorem updateByCompiler_eq (s : Session) (t : Target) (now : Instant) (options : Options)
    (inputs : List Input) :
    s.updateByCompiler t now options inputs = s.settle (Batch.prepare t now options inputs) := by
  have hcore : Prod.fst <$> (Compiler.new t now).update options inputs executor =
      Batch.carryOut executor (Batch.prepare t now options inputs) :=
    Compiler.update_eq_carryOut (Compiler.new t now) options inputs executor
  rw [← run_carryOut, ← hcore]
  rfl

theorem updateRows_eq (s : Session) (t : Target) (now : Instant) (options : Options)
    {inputs : List Input} {rows : List Row} (h : inputs.mapM Input.toRow = .ok rows)
    (hne : inputs ≠ []) :
    ((s.updateRows t now options rows).1.map some, (s.updateRows t now options rows).2) =
      s.settle (Batch.prepare t now options inputs) := by
  rw [updateRows, Batch.compile_rows t now options h, Batch.prepare, if_neg (by simpa using hne)]
  cases Batch.compile t now options inputs <;> rfl

theorem update_of_error (s : Session) (t : Target) (now : Instant) (options : Options)
    {inputs : List Input} {e : Error} (h : inputs.mapM Input.toRow = .error e) :
    s.update t now options inputs = (.error (.compile e), s) := by
  rw [update, h]

/-- With rows, what is left is to learn the columns where they are asked for. -/
theorem update_of_rows (s : Session) (t : Target) (now : Instant) (options : Options)
    {inputs : List Input} {rows : List Row} (h : inputs.mapM Input.toRow = .ok rows)
    (hne : inputs ≠ []) :
    s.update t now options inputs =
      if options.strict && t.knownColumns.isNone then
        match s.bind t with
        | (.error e, s) => (.error e, s)
        | (.ok t, s) => s.settle (Batch.prepare t now options inputs)
      else s.settle (Batch.prepare t now options inputs) := by
  have hrows : rows ≠ [] := by
    rintro rfl
    exact hne (List.forall₂_nil_right_iff.mp (mapM_eq_ok.mp h))
  obtain ⟨r, rest, rfl⟩ := List.exists_cons_of_ne_nil hrows
  unfold update
  rw [h]
  dsimp only
  by_cases hlearn : (options.strict && t.knownColumns.isNone) = true
  · rw [if_pos hlearn, if_pos hlearn]
    generalize s.bind t = bound
    obtain ⟨result, s'⟩ := bound
    cases result with
    | error e => rfl
    | ok t' => exact s'.updateRows_eq t' now options h hne
  · rw [if_neg hlearn, if_neg hlearn]
    exact s.updateRows_eq t now options h hne

/-- An update of a target that need not learn its columns. -/
theorem update_eq (s : Session) (t : Target) (now : Instant) (options : Options)
    (inputs : List Input) (hmode : options.strict = false ∨ t.knownColumns.isSome) :
    s.update t now options inputs = s.settle (Batch.prepare t now options inputs) := by
  have hknown : (options.strict && t.knownColumns.isNone) = false := by
    rcases hmode with h | h
    · rw [h, Bool.false_and]
    · rw [Option.isNone_eq_false_iff.mpr h, Bool.and_false]
  rcases eq_or_ne inputs [] with rfl | hne
  · rfl
  · cases hrows : inputs.mapM Input.toRow with
    | error e =>
      rw [s.update_of_error t now options hrows, Batch.prepare, if_neg (by simpa using hne),
        Batch.compile_of_error hrows]
      rfl
    | ok rows =>
      rw [s.update_of_rows t now options hrows hne, hknown]
      rfl

/-- A database changes only where a statement has touched its rows. -/
theorem database_settle (s : Session) (p : Except Error (Option Compiled))
    (h : ∀ n, (s.settle p).1 ≠ .ok (some n)) : (s.settle p).2.database = s.database := by
  cases p with
  | error e => rfl
  | ok c =>
    cases c with
    | none => rfl
    | some c =>
      rw [settle] at h ⊢
      unfold execute at h ⊢
      split_ifs at h ⊢
      · cases hrun : s.database.execute .numeric c.statement.sql with
        | none => rfl
        | some r =>
          rw [hrun] at h
          exact absurd rfl (h r.2)
      · rfl

/-- In any mode: to learn the columns of a table only reads. -/
theorem database_update (s : Session) (t : Target) (now : Instant) (options : Options)
    (inputs : List Input) (h : ∀ n, (s.update t now options inputs).1 ≠ .ok (some n)) :
    (s.update t now options inputs).2.database = s.database := by
  by_cases hmode : options.strict = false ∨ t.knownColumns.isSome
  · rw [s.update_eq t now options inputs hmode] at h ⊢
    exact s.database_settle _ h
  · have hunknown : (options.strict && t.knownColumns.isNone) = true := by
      simpa [not_or] using hmode
    rcases eq_or_ne inputs [] with rfl | hne
    · rfl
    · cases hrows : inputs.mapM Input.toRow with
      | error e => rw [s.update_of_error t now options hrows]
      | ok rows =>
        have hdatabase : (s.bind t).2.database = s.database := rfl
        rw [s.update_of_rows t now options hrows hne, if_pos hunknown] at h ⊢
        generalize s.bind t = bound at h hdatabase ⊢
        obtain ⟨result, s'⟩ := bound
        cases result with
        | error e => exact hdatabase
        | ok t' => exact (s'.database_settle _ h).trans hdatabase

end Session

end Database

end CaseUpdate
