import CaseUpdate.Scalar
import CaseUpdate.Sql.Literal
import CaseUpdate.Sql.Name
import CaseUpdate.Step

namespace CaseUpdate.Batch

inductive Assigned where
  | null
  /-- The body of a literal. -/
  | literal (body : String)
  | step (s : Step)
deriving DecidableEq

/-- Where the lookup column has the key, the value. -/
structure Branch where
  key : String
  value : Assigned
deriving DecidableEq

structure Block where
  column : String
  branches : List Branch
deriving DecidableEq

/-- The statement of a batch, with one block of cases for each column. Keys and values are escaped
already: they are the bodies of literals. -/
structure Statement where
  table : String
  lookup : String
  /-- The style of column names. Outside of the blocks names stand in double quotes. -/
  style : Sql.NameStyle
  raw : Bool
  blocks : List Block
  keys : List String
deriving DecidableEq

def quotedBody (body : String) : List Char :=
  Sql.apostrophe :: (body.toList ++ [Sql.apostrophe])

def separated (separator : List Char) : List (List Char) → List Char
  | [] => []
  | [s] => s
  | s :: rest => s ++ separator ++ separated separator rest

namespace Statement

/-- A step of a column. A minus has brackets around it, because two minuses begin a comment. -/
def stepChars (st : Statement) (column : String) (s : Step) : List Char :=
  st.style.quoteChars column ++ s.operator.symbol ::
    (if s.operand.isNegative then '(' :: (s.operand.chars ++ [')']) else s.operand.chars)

def assignedChars (st : Statement) (column : String) : Assigned → List Char
  | .null => "NULL".toList
  | .literal body => if st.raw then body.toList else quotedBody body
  | .step s => st.stepChars column s

def branchChars (st : Statement) (column : String) (b : Branch) : List Char :=
  "WHEN ".toList ++ st.style.quoteChars st.lookup ++ " = ".toList ++ quotedBody b.key ++
    " THEN ".toList ++ st.assignedChars column b.value

def blockChars (st : Statement) (b : Block) : List Char :=
  st.style.quoteChars b.column ++ " = (CASE\n".toList ++
    separated ['\n'] (b.branches.map (st.branchChars b.column)) ++
    "\nELSE ".toList ++ st.style.quoteChars b.column ++ " END)".toList

def chars (st : Statement) : List Char :=
  "UPDATE ".toList ++ Sql.NameStyle.doubleQuote.quoteChars st.table ++ " SET ".toList ++
    separated "\n,".toList (st.blocks.map st.blockChars) ++
    " WHERE ".toList ++ Sql.NameStyle.doubleQuote.quoteChars st.lookup ++ " IN(".toList ++
    separated [','] (st.keys.map quotedBody) ++ ");".toList

def sql (st : Statement) : String := String.ofList st.chars

@[simp] theorem toList_sql (st : Statement) : st.sql.toList = st.chars := String.toList_ofList

end Statement

/-- A statement with the lookup values of the rows, in their order. -/
structure Compiled where
  statement : Statement
  keys : List Scalar

end CaseUpdate.Batch
