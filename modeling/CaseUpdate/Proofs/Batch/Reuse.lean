import CaseUpdate.Proofs.Batch.Entries

namespace CaseUpdate.Batch

open Calendar (Instant)

variable {m : Type → Type} {ε α : Type}

/-- What is asked of a compiler. Each update brings an executor of its own. -/
inductive Call (m : Type → Type) (ε α : Type) where
  | compile (options : Options) (inputs : List Input)
  | update (options : Options) (inputs : List Input) (execute : String → m (Except ε α))

inductive Answer (ε α : Type) where
  | compiled (r : Except Error Compiled)
  | updated (r : Except (UpdateError ε) (Option α))

/-- The statement that is kept after a call: none after a failure, and the former one after an
update without rows. What an executor does with a statement does not matter. -/
def Call.kept (target : Target) (now : Instant) (former : Option Compiled) :
    Call m ε α → Option Compiled
  | .compile options inputs => (Batch.compile target now options inputs).toOption
  | .update options inputs _ =>
    if inputs.isEmpty then former else (Batch.compile target now options inputs).toOption

def keptAfterEach (target : Target) (now : Instant) :
    Option Compiled → List (Call m ε α) → List (Option Compiled)
  | _, [] => []
  | former, call :: rest =>
    let kept := call.kept target now former
    kept :: keptAfterEach target now kept rest

namespace Compiler

section Calls

variable [Monad m]

def call (k : Compiler) : Call m ε α → m (Answer ε α × Compiler)
  | .compile options inputs =>
    let (r, k) := k.compile options inputs
    pure (.compiled r, k)
  | .update options inputs execute => do
    let (r, k) ← k.update options inputs execute
    return (.updated r, k)

/-- Makes calls in their order. Beside each answer stands the compiler as the call leaves it. -/
def callAll (k : Compiler) : List (Call m ε α) → m (List (Answer ε α × Compiler))
  | [] => pure []
  | call :: rest => do
    let (answer, k) ← k.call call
    let answers ← k.callAll rest
    return (answer, k) :: answers

end Calls

/-- The answer of a compiler that was made for the call. -/
def freshAnswer [Monad m] (target : Target) (now : Instant) (call : Call m ε α) :
    m (Answer ε α) :=
  Prod.fst <$> (new target now).call call

/-- The compiler after a call: one that was made for the batch, unless there was none. -/
def after (k : Compiler) : Call m ε α → Compiler
  | .compile options inputs => ((new k.target k.now).compile options inputs).2
  | .update options inputs _ =>
    if inputs.isEmpty then k else ((new k.target k.now).compile options inputs).2

def afterEach (k : Compiler) : List (Call m ε α) → List Compiler
  | [] => []
  | call :: rest => k.after call :: (k.after call).afterEach rest

section Compile

variable (k : Compiler) (options : Options) (inputs : List Input)

/-- Nothing that was compiled before matters, neither for the answer nor for what is kept. -/
theorem compile_eq_new : k.compile options inputs = (new k.target k.now).compile options inputs := by
  unfold compile
  cases inputs.mapM Input.toRow <;> rfl

/-- How a batch can end for a new compiler: it fails and the compiler is new again, or it keeps the
statement that it answers. -/
theorem compileRows_new (target : Target) (now : Instant) (rows : List Row) :
    (∃ e, (new target now).compileRows options rows = (.error e, new target now)) ∨
      ∃ g s, (new target now).compileRows options rows = (.ok s, ⟨target, now, g, some s⟩) := by
  unfold compileRows
  cases admission (new target now).target options rows with
  | error e => exact .inl ⟨e, rfl⟩
  | ok known =>
    dsimp only
    generalize gatherRows (new target now).target (new target now).now known
      (lookupColumn (new target now).target options) (new target now).gathered 0 rows = result
    obtain ⟨answer, g⟩ := result
    cases answer with
    | error e => exact .inl ⟨e, rfl⟩
    | ok literals =>
      dsimp only
      split_ifs
      · exact .inl ⟨_, rfl⟩
      · exact .inr ⟨g, _, rfl⟩

theorem compile_cases :
    (∃ e, k.compile options inputs = (.error e, new k.target k.now)) ∨
      ∃ g s, k.compile options inputs = (.ok s, ⟨k.target, k.now, g, some s⟩) := by
  unfold compile
  cases inputs.mapM Input.toRow with
  | error e => exact .inl ⟨e, rfl⟩
  | ok rows => exact compileRows_new options k.target k.now rows

theorem compile_last : (k.compile options inputs).2.last =
    (Batch.compile k.target k.now options inputs).toOption := by
  rw [Batch.compile, ← compile_eq_new]
  rcases k.compile_cases options inputs with ⟨e, h⟩ | ⟨g, s, h⟩ <;> rw [h] <;> rfl

theorem compile_owner : (k.compile options inputs).2.target = k.target ∧
    (k.compile options inputs).2.now = k.now := by
  rcases k.compile_cases options inputs with ⟨e, h⟩ | ⟨g, s, h⟩ <;> rw [h] <;> exact ⟨rfl, rfl⟩

/-- A failure leaves nothing behind. -/
theorem compile_error {e : Error} (h : (k.compile options inputs).1 = .error e) :
    (k.compile options inputs).2 = new k.target k.now := by
  rcases k.compile_cases options inputs with ⟨e', hc⟩ | ⟨g, s, hc⟩
  · rw [hc]
  · rw [hc] at h
    cases h

end Compile

section Steps

variable (k : Compiler) (c : Call m ε α)

theorem after_owner : (k.after c).target = k.target ∧ (k.after c).now = k.now := by
  cases c with
  | compile options inputs => exact compile_owner _ options inputs
  | update options inputs execute =>
    rw [after]
    split_ifs
    · exact ⟨rfl, rfl⟩
    · exact compile_owner _ options inputs

theorem after_last : (k.after c).last = c.kept k.target k.now k.last := by
  cases c with
  | compile options inputs => exact compile_last _ options inputs
  | update options inputs execute =>
    rw [after, Call.kept]
    split_ifs
    · rfl
    · exact compile_last _ options inputs

/-- One call: the answer is that of a new compiler, and an executor changes nothing in the
compiler. -/
theorem call_eq [Monad m] [LawfulMonad m] :
    k.call c = (fun answer => (answer, k.after c)) <$> freshAnswer k.target k.now c := by
  cases c with
  | compile options inputs =>
    rw [freshAnswer, call, call, after, compile_eq_new]
    simp
  | update options inputs execute =>
    rw [freshAnswer, call, call, after, update, update]
    by_cases hnil : inputs.isEmpty
    · simp [hnil]
    · rw [if_neg hnil, if_neg hnil, if_neg hnil, compile_eq_new]
      generalize (new k.target k.now).compile options inputs = result
      obtain ⟨answer, k'⟩ := result
      cases answer with
      | error e => simp
      | ok s =>
        simp only [bind_assoc, map_eq_pure_bind]
        congr 1
        funext r
        cases r <;> simp

/-- All calls: by induction, since no call changes the target or the clock. -/
theorem callAll_eq [Monad m] [LawfulMonad m] (calls : List (Call m ε α)) :
    k.callAll calls = (fun answers => answers.zip (k.afterEach calls)) <$>
      calls.mapM (freshAnswer k.target k.now) := by
  induction calls generalizing k with
  | nil => simp [callAll]
  | cons c rest ih =>
    obtain ⟨htarget, hnow⟩ := k.after_owner c
    have hrest := ih (k.after c)
    rw [htarget, hnow] at hrest
    simp [callAll, call_eq, hrest, afterEach]

theorem map_last_afterEach (calls : List (Call m ε α)) :
    (k.afterEach calls).map Compiler.last = keptAfterEach k.target k.now k.last calls := by
  induction calls generalizing k with
  | nil => rfl
  | cons c rest ih =>
    obtain ⟨htarget, hnow⟩ := k.after_owner c
    rw [afterEach, List.map_cons, ih, htarget, hnow, after_last, keptAfterEach]

theorem mem_afterEach {calls : List (Call m ε α)} {k' : Compiler} (h : k' ∈ k.afterEach calls) :
    k'.target = k.target ∧ k'.now = k.now := by
  induction calls generalizing k with
  | nil => cases h
  | cons c rest ih =>
    obtain ⟨htarget, hnow⟩ := k.after_owner c
    rcases List.mem_cons.mp h with rfl | hmem
    · exact ⟨htarget, hnow⟩
    · have hrest := ih (k.after c) hmem
      rwa [htarget, hnow] at hrest

end Steps

/-- A compiler can be used again and again. Whatever it was asked before, with success or not, each
call answers what a compiler made for it answers and leaves what such a one leaves: an update leaves
what its batch leaves even if the executor fails, and nothing changes without rows. The statement
that is kept is the one compiled last, and a failure leaves none and makes the compiler as new. -/
theorem callAll_new [Monad m] [LawfulMonad m] (target : Target) (now : Instant)
    (calls : List (Call m ε α)) :
    (new target now).callAll calls =
        (fun answers => answers.zip ((new target now).afterEach calls)) <$>
          calls.mapM (freshAnswer target now) ∧
      ((new target now).afterEach calls).map Compiler.last = keptAfterEach target now none calls ∧
      ∀ k ∈ new target now :: (new target now).afterEach calls, ∀ options inputs,
        k.compile options inputs = (new target now).compile options inputs ∧
        (∀ s, (k.compile options inputs).1 = .ok s →
          (k.compile options inputs).2.last = some s) ∧
        (∀ e, (k.compile options inputs).1 = .error e →
          (k.compile options inputs).2 = new target now) := by
  refine ⟨callAll_eq _ calls, map_last_afterEach _ calls, ?_⟩
  intro k hk options inputs
  have howner : k.target = target ∧ k.now = now := by
    rcases List.mem_cons.mp hk with rfl | hk
    · exact ⟨rfl, rfl⟩
    · exact mem_afterEach _ hk
  obtain ⟨rfl, rfl⟩ := howner
  refine ⟨k.compile_eq_new options inputs, ?_, fun e => k.compile_error options inputs⟩
  intro s hs
  rw [compile_last, Batch.compile, ← compile_eq_new, hs]
  rfl

/-- After a success, an update whose executor fails, one without rows, a batch that fails at its
second row, and again an update without rows. -/
theorem callAll_new_of_failures :
    let target := Target.ofTable "t" "id"
    let now : Instant := ⟨⟨2024, 1, 1⟩, ⟨0, 0, 0, 0⟩⟩
    let row (key value : String) : Input :=
      .row (.ofList [("id", .scalar (.text key)), ("n", .scalar (.text value))])
    let down : String → StateM (List String) (Except String Nat) := fun sql => do
      modify (sql :: ·)
      return .error "down"
    let calls := [.compile .default [row "1" "x"], .update .default [row "2" "y"] down,
      .update .default [] down, .compile .default [row "1" "x", .row .empty],
      .update .default [] down]
    (new target now).callAll calls =
        (fun answers => answers.zip ((new target now).afterEach calls)) <$>
          calls.mapM (freshAnswer target now) ∧
      ((new target now).afterEach calls).map Compiler.last =
        [some ⟨⟨"t", "id", .backtick, false, [⟨"n", [⟨"1", .literal "x"⟩]⟩], ["1"]⟩, [.text "1"]⟩,
          some ⟨⟨"t", "id", .backtick, false, [⟨"n", [⟨"2", .literal "y"⟩]⟩], ["2"]⟩, [.text "2"]⟩,
          some ⟨⟨"t", "id", .backtick, false, [⟨"n", [⟨"2", .literal "y"⟩]⟩], ["2"]⟩, [.text "2"]⟩,
          none, none] := by
  intro target now row down calls
  obtain ⟨hrun, hkept, -⟩ := callAll_new target now calls
  exact ⟨hrun, hkept.trans rfl⟩

end Compiler

end CaseUpdate.Batch
