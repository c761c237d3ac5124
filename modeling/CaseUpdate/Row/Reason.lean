import CaseUpdate.Decimal.Numeral

namespace CaseUpdate.Reason

/-- A position in a text. Lines count from one; the line zero stands for no position. -/
structure Position where
  line : Nat
  column : Nat
deriving DecidableEq

/-- What stands before the line in a position. -/
def lineMark : List Char := " at line ".toList

/-- What stands between the line and the column. -/
def columnMark : List Char := " column ".toList

/-- A position as the end of a reason. -/
def Position.chars (p : Position) : List Char :=
  if p.line = 0 then []
  else lineMark ++ Nat.toDigits 10 p.line ++ columnMark ++ Nat.toDigits 10 p.column

/-- What follows a mark at the beginning of a text. -/
def dropMark : List Char → List Char → Option (List Char)
  | [], s => some s
  | _ :: _, [] => none
  | m :: mark, c :: s => if m = c then dropMark mark s else none

/-- Splits a text at the last place where a mark stands. -/
def splitLast (mark : List Char) : List Char → Option (List Char × List Char)
  | [] => none
  | c :: s =>
    match splitLast mark s with
    | some (before, after) => some (c :: before, after)
    | none => (dropMark mark (c :: s)).map fun after => ([], after)

/-- Reads digits of a number that fits an unsigned word of 64 bits. -/
def readCount (s : List Char) : Option Nat :=
  (Decimal.readDigits s).filter fun n => n < 0x10000000000000000

/-- Reads what follows the mark of a position: the two numbers, and nothing more. -/
def Position.read (s : List Char) : Option Position := do
  let rest ← dropMark columnMark (s.dropWhile Char.isDigit)
  return ⟨← readCount (s.takeWhile Char.isDigit), ← readCount rest⟩

/-- The text of a reason. A position at its end is written with plain numbers, and left out where it
is none. -/
def text (reason : String) : String :=
  match splitLast lineMark reason.toList with
  | some (before, after) =>
    match Position.read after with
    | some p => String.ofList (before ++ p.chars)
    | none => reason
  | none => reason

end CaseUpdate.Reason
