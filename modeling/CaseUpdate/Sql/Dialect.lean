import CaseUpdate.Text.Blank

namespace CaseUpdate.Sql

inductive NameStyle where
  | backtick
  | doubleQuote
  | bracket
deriving DecidableEq

/-- How a quote inside a string literal is written. -/
inductive LiteralStyle where
  /-- Pairs of a backslash and a letter. -/
  | backslash
  /-- Two quotes; a backslash is a character like any other. -/
  | quoteDoubling
deriving DecidableEq

inductive Dialect where
  | mySql
  | mariaDb
  | sqlite
  | postgres
  | sqlServer
  | generic
deriving DecidableEq

namespace Dialect

def name : Dialect → String
  | .mySql => "mysql"
  | .mariaDb => "mariadb"
  | .sqlite => "sqlite"
  | .postgres => "postgres"
  | .sqlServer => "sqlserver"
  | .generic => "generic"

def all : List Dialect := [.mySql, .mariaDb, .sqlite, .postgres, .sqlServer, .generic]

def ofName? (s : String) : Option Dialect := all.find? (fun d => d.name = s)

/-- The dialect that a driver speaks. Blanks around the name and the case of its letters do not
matter, and a driver that is not known speaks the generic one. -/
def ofDriver (driver : String) : Dialect :=
  let s := String.ofList ((Text.trim driver.toList).map Char.toLower)
  if s = "mysql" then .mySql
  else if s = "mariadb" then .mariaDb
  else if s = "sqlite" ∨ s = "sqlite3" then .sqlite
  else if s = "pgsql" ∨ s = "postgres" ∨ s = "postgresql" then .postgres
  else if s = "sqlsrv" ∨ s = "mssql" ∨ s = "sqlserver" then .sqlServer
  else .generic

def nameStyle : Dialect → NameStyle
  | .postgres => .doubleQuote
  | .sqlServer => .bracket
  | .mySql | .mariaDb | .sqlite | .generic => .backtick

def literalStyle : Dialect → LiteralStyle
  | .mySql | .mariaDb | .generic => .backslash
  | .sqlite | .postgres | .sqlServer => .quoteDoubling

end Dialect

end CaseUpdate.Sql
