import CaseUpdate.Json.Basic

namespace CaseUpdate.Json

/-- The letter of a character's short escape. -/
def shortEscape (c : Char) : Option Char :=
  if c = '"' then some '"'
  else if c = '\\' then some '\\'
  else if c = '\x08' then some 'b'
  else if c = '\x0c' then some 'f'
  else if c = '\n' then some 'n'
  else if c = '\r' then some 'r'
  else if c = '\t' then some 't'
  else none

def hexQuad (n : Nat) : List Char :=
  [n / 4096, n / 256 % 16, n / 16 % 16, n % 16].map Nat.digitChar

def escapeChar (c : Char) : List Char :=
  match shortEscape c with
  | some letter => ['\\', letter]
  | none => if c.toNat < 0x20 then '\\' :: 'u' :: hexQuad c.toNat else [c]

def quotedChars (s : String) : List Char := '"' :: (s.toList.flatMap escapeChar ++ ['"'])

def integerChars (n : Int) : List Char := Decimal.signed (n < 0) (Nat.toDigits 10 n.natAbs)

def Number.chars : Number → List Char
  | .integer n => integerChars n
  | .real negative x => Decimal.signed negative x.json

mutual

/-- The compact text of a value: no blanks, and in strings only the quote, the backslash and the
control characters are escaped. -/
def chars : Json → List Char
  | .null => "null".toList
  | .bool true => "true".toList
  | .bool false => "false".toList
  | .number n => n.chars
  | .text s => quotedChars s
  | .array items => '[' :: (itemsChars items ++ [']'])
  | .object members => '{' :: (membersChars members ++ ['}'])

def itemsChars : List Json → List Char
  | [] => []
  | v :: rest => chars v ++ (match rest with | [] => [] | _ :: _ => ',' :: itemsChars rest)

def membersChars : List (String × Json) → List Char
  | [] => []
  | (k, v) :: rest =>
    quotedChars k ++ ':' ::
      (chars v ++ (match rest with | [] => [] | _ :: _ => ',' :: membersChars rest))

end

def compact (v : Json) : String := String.ofList (chars v)

end CaseUpdate.Json
