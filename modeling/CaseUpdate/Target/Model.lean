import CaseUpdate.Target.Basic

namespace CaseUpdate

/-- What a model says about the table of its records. -/
structure Model where
  table : String
  primaryKey : String
  columns : List String
  /-- The stamped column, if there is one. -/
  updatedAt : Option String
  datePattern : String
  castable : List String
deriving DecidableEq

def Model.target (m : Model) (d : Sql.Dialect) : Target :=
  let t := (Target.ofTable m.table m.primaryKey).withDialect d
  let t := (t.withColumns m.columns).withCastable m.castable
  match m.updatedAt with
  | some column => t.withStamp column m.datePattern
  | none => t

end CaseUpdate
