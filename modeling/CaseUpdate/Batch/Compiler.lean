import CaseUpdate.Batch.Compile

namespace CaseUpdate.Batch

open Calendar (Instant)

/-- A compiler, with what it has gathered for its last batch and the statement of that. -/
structure Compiler where
  target : Target
  now : Instant
  gathered : Gathered
  last : Option Compiled

/-- Why an update did not happen: there was no statement, or its execution failed. -/
inductive UpdateError (ε : Type) where
  | compile (e : Error)
  | execute (e : ε)

def UpdateError.message {ε : Type} (text : ε → String) : UpdateError ε → String
  | .compile e => e.message
  | .execute e => text e

namespace Compiler

def new (target : Target) (now : Instant) : Compiler := ⟨target, now, .empty, none⟩

def reset (c : Compiler) : Compiler := { c with gathered := .empty, last := none }

/-- Compiles rows into a compiler that has nothing gathered. Some column besides the lookup column
must come in them. -/
def compileRows (c : Compiler) (options : Options) (rows : List Row) :
    Except Error Compiled × Compiler :=
  match admission c.target options rows with
  | .error e => (.error e, c)
  | .ok known =>
    let lookup := lookupColumn c.target options
    match gatherRows c.target c.now known lookup c.gathered 0 rows with
    | (.error e, g) => (.error e, { c with gathered := g }.reset)
    | (.ok literals, g) =>
      if g.blocks.isEmpty then (.error (.nothingToUpdate lookup), { c with gathered := g }.reset)
      else
        let s := compiledOf c.target options literals g
        (.ok s, { c with gathered := g, last := some s })

/-- Compiles a batch: all inputs must be rows before anything else is looked at. The last batch is
forgotten first, and a failure leaves no statement. -/
def compile (c : Compiler) (options : Options) (inputs : List Input) :
    Except Error Compiled × Compiler :=
  match inputs.mapM Input.toRow with
  | .error e => (.error e, c.reset)
  | .ok rows => c.reset.compileRows options rows

/-- Compiles a batch and executes its statement. An empty batch is no error, and nothing happens
then. The executor acts in a monad of its own. -/
def update {m : Type → Type} {ε α : Type} [Monad m] (c : Compiler) (options : Options)
    (inputs : List Input) (execute : String → m (Except ε α)) :
    m (Except (UpdateError ε) (Option α) × Compiler) :=
  if inputs.isEmpty then pure (.ok none, c)
  else match c.compile options inputs with
    | (.error e, c) => pure (.error (.compile e), c)
    | (.ok s, c) => do
      match ← execute s.statement.sql with
      | .ok a => pure (.ok (some a), c)
      | .error e => pure (.error (.execute e), c)

end Compiler

/-- The statement of a batch, made by a new compiler. -/
def compile (target : Target) (now : Instant) (options : Options) (inputs : List Input) :
    Except Error Compiled :=
  ((Compiler.new target now).compile options inputs).1

end CaseUpdate.Batch
