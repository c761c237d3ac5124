import CaseUpdate.Sql.Dialect

namespace CaseUpdate.Sql

def apostrophe : Char := '\x27'

def doubleQuotes (s : List Char) : List Char :=
  s.flatMap fun c => if c = apostrophe then [c, c] else [c]

/-- The character after the backslash that stands for a character of the text. -/
def backslashLetter (c : Char) : Option Char :=
  if c = '\\' then some '\\'
  else if c = '\x00' then some '0'
  else if c = '\n' then some 'n'
  else if c = '\r' then some 'r'
  else if c = apostrophe then some apostrophe
  else if c = '"' then some '"'
  else if c = '\x1a' then some 'Z'
  else none

def escapeBackslashes (s : List Char) : List Char :=
  s.flatMap fun c => match backslashLetter c with
    | some letter => ['\\', letter]
    | none => [c]

/-- The character that a backslash and a character after it stand for. -/
def backslashMeaning (c : Char) : Char :=
  if c = '0' then '\x00'
  else if c = 'n' then '\n'
  else if c = 'r' then '\r'
  else if c = 'Z' then '\x1a'
  else c

namespace LiteralStyle

/-- Escapes plain text to stand between the quotes of a literal. -/
def escapePlain : LiteralStyle → List Char → List Char
  | .backslash => escapeBackslashes
  | .quoteDoubling => doubleQuotes

/-- Reads what stands between the quotes of a literal. A quote alone would end it, and a backslash
needs a character after it where it escapes. -/
def readBody (style : LiteralStyle) : List Char → Option (List Char)
  | [] => some []
  | [c] => if c = apostrophe ∨ (c = '\\' ∧ style = .backslash) then none else some [c]
  | c :: d :: s =>
    if c = apostrophe then
      if d = apostrophe then (readBody style s).map (apostrophe :: ·) else none
    else if c = '\\' ∧ style = .backslash then (readBody style s).map (backslashMeaning d :: ·)
    else (readBody style (d :: s)).map (c :: ·)

end LiteralStyle

end CaseUpdate.Sql
