import CaseUpdate.Batch.Compiler
import CaseUpdate.Database.Basic
import CaseUpdate.Target.Connection
import CaseUpdate.Target.Listings

namespace CaseUpdate.Database

open Batch (Error Input Options)
open Calendar (Instant)

/-- Batches on a database. A session keeps the column listings that it has read, under the names
that the tables have in the database. -/
structure Session where
  database : Database
  /-- Whether the database answers; all queries fail while it does not. -/
  answers : Bool
  listings : Listings
  connection : Connection

inductive Failure where
  | compile (e : Error)
  | database

namespace Session

/-- A session on a database, with a prefix for the tables of models. -/
def start (db : Database) (tablePrefix : String) : Session :=
  ⟨db, true, .empty, ⟨"sqlite", tablePrefix⟩⟩

/-- The columns that a table has now. A table without columns is missing. -/
def load (s : Session) (table : String) : Except Failure (List String) :=
  if s.answers then
    let found := s.database.columnsOf table
    if found.isEmpty then .error (.compile (.columnsUnavailable table)) else .ok found
  else .error .database

/-- The columns of a target's table: those at hand, else those that the database has now. -/
def columns (s : Session) (t : Target) : Except Failure (List String) × Session :=
  let load : Id (Except Failure (List String)) := s.load t.qualifiedTable
  let (result, listings) := Id.run (s.listings.getOrLoad t.qualifiedTable load)
  (result, { s with listings := listings })

def bind (s : Session) (t : Target) : Except Failure Target × Session :=
  let (result, s) := s.columns t
  (result.map t.withColumns, s)

def invalidate (s : Session) (t : Target) : Session :=
  { s with listings := s.listings.invalidate t.qualifiedTable }

def clear (s : Session) : Session := { s with listings := .empty }

def execute (s : Session) (sql : String) : Except Failure Nat × Session :=
  if s.answers then
    match s.database.execute .numeric sql with
    | some (db, touched) => (.ok touched, { s with database := db })
    | none => (.error .database, s)
  else (.error .database, s)

def updateRows (s : Session) (t : Target) (now : Instant) (options : Options) (rows : List Row) :
    Except Failure Nat × Session :=
  match Batch.compile t now options (rows.map .row) with
  | .error e => (.error (.compile e), s)
  | .ok c => s.execute c.statement.sql

/-- Updates a target by one statement. Without rows nothing happens. In strict mode a target that
does not know its columns gets those of its table. -/
def update (s : Session) (t : Target) (now : Instant) (options : Options) (inputs : List Input) :
    Except Failure (Option Nat) × Session :=
  match inputs.mapM Input.toRow with
  | .error e => (.error (.compile e), s)
  | .ok [] => (.ok none, s)
  | .ok rows =>
    if options.strict && t.knownColumns.isNone then
      match s.bind t with
      | (.error e, s) => (.error e, s)
      | (.ok t, s) =>
        let (result, s) := s.updateRows t now options rows
        (result.map some, s)
    else
      let (result, s) := s.updateRows t now options rows
      (result.map some, s)

def updateModel (s : Session) (m : Model) (now : Instant) (options : Options)
    (inputs : List Input) : Except Failure (Option Nat) × Session :=
  s.update (s.connection.targetFor m) now options inputs

def updateRecords (s : Session) (m : Model) (now : Instant) (options : Options)
    (records : List Record) : Except Failure (Option Nat) × Session :=
  s.updateModel m now options (records.map .record)

end Session

end CaseUpdate.Database
