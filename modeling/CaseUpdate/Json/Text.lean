namespace CaseUpdate.Json

/-- A piece of a string: a character, or a unit of UTF-16 named by an escape. Units are paired to
characters only after the escapes are undone, so that text with a lone half is still text that the
grammar admits. -/
inductive Piece where
  | char (c : Char)
  | unit (n : Nat)
deriving DecidableEq

def escapedLetter (c : Char) : Option Char :=
  if c = '"' ∨ c = '\\' ∨ c = '/' then some c
  else if c = 'b' then some '\x08'
  else if c = 'f' then some '\x0c'
  else if c = 'n' then some '\n'
  else if c = 'r' then some '\r'
  else if c = 't' then some '\t'
  else none

def hexValue (c : Char) : Option Nat :=
  let n := c.toNat
  if '0' ≤ c ∧ c ≤ '9' then some (n - 48)
  else if 'a' ≤ c ∧ c ≤ 'f' then some (n - 87)
  else if 'A' ≤ c ∧ c ≤ 'F' then some (n - 55)
  else none

def hexUnit (a b c d : Char) : Option Nat := do
  let a ← hexValue a
  let b ← hexValue b
  let c ← hexValue c
  let d ← hexValue d
  return ((a * 16 + b) * 16 + c) * 16 + d

/-- Undoes the escapes. Control characters must be escaped. -/
def unescape : List Char → Option (List Piece)
  | [] => some []
  | c :: s =>
    if c = '\\' then
      match s with
      | [] => none
      | e :: s =>
        if e = 'u' then
          match s with
          | a :: b :: c :: d :: s => do
            let n ← hexUnit a b c d
            let rest ← unescape s
            return .unit n :: rest
          | _ => none
        else do
          let x ← escapedLetter e
          let rest ← unescape s
          return .char x :: rest
    else if c.toNat < 0x20 then none
    else (unescape s).map (.char c :: ·)

def isHighHalf (n : Nat) : Bool := 0xD800 ≤ n && n < 0xDC00

def isLowHalf (n : Nat) : Bool := 0xDC00 ≤ n && n < 0xE000

/-- Joins the halves of characters beyond the first 2 ^ 16; a half must have its other half. -/
def pairUnits : List Piece → Option (List Char)
  | [] => some []
  | .char c :: s => (pairUnits s).map (c :: ·)
  | .unit n :: s =>
    if isHighHalf n then
      match s with
      | .unit m :: s =>
        if isLowHalf m then
          (pairUnits s).map (Char.ofNat (0x10000 + (n - 0xD800) * 0x400 + (m - 0xDC00)) :: ·)
        else none
      | _ => none
    else if isLowHalf n then none
    else (pairUnits s).map (Char.ofNat n :: ·)

end CaseUpdate.Json
