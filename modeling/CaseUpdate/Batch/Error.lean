import CaseUpdate.Step

namespace CaseUpdate.Batch

/-- Why a batch has no statement. -/
inductive Error where
  | emptyInput
  | missingLookupValue (column : String) (row : Nat)
  | invalidIncrement (column : String) (reason : StepError)
  | unknownColumn (column table : String)
  | columnsUnavailable (table : String)
  | castableValue (column kind : String)
  | nothingToUpdate (column : String)
  | invalidDateFormat (pattern : String)
  | invalidRow (kind : String)
  | serialization (reason : String)
deriving DecidableEq

namespace Error

def message : Error → String
  | .emptyInput => "no rows were supplied"
  | .missingLookupValue column row =>
    "row " ++ toString row ++ " has no value for lookup column [" ++ column ++ "]"
  | .invalidIncrement column reason =>
    "invalid increment/decrement for column [" ++ column ++ "]: " ++ reason.message ++
      "; expected a math operator [+, -, *, /, %] and a number"
  | .unknownColumn column table =>
    "there is no column with name [" ++ column ++ "] on table [" ++ table ++ "]"
  | .columnsUnavailable table =>
    "strict column checking needs the known columns of table [" ++ table ++ "]"
  | .castableValue column kind =>
    "castable attributes must be provided as scalar values, [" ++ kind ++ "] for [" ++ column ++
      "] is invalid"
  | .nothingToUpdate column => "no columns to update besides lookup column [" ++ column ++ "]"
  | .invalidDateFormat pattern =>
    "invalid date format [" ++ pattern ++ "] for the timestamp column"
  | .invalidRow kind => "a row must be a JSON object, got " ++ kind
  | .serialization reason => "serialization error: " ++ reason

end Error

end CaseUpdate.Batch
