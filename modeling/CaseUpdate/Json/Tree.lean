import CaseUpdate.Json.Text
import CaseUpdate.Json.Token
import CaseUpdate.Json.Number

namespace CaseUpdate.Json

/-- What the grammar of JSON admits, with nothing decided beyond it: numbers are still as written,
repeated keys stand side by side, and nesting is as deep as it likes. A text is absent where it
holds half a character. -/
inductive Tree where
  | null
  | bool (b : Bool)
  | number (w : Written)
  | text (s : Option String)
  | array (items : List Tree)
  | object (members : List (Option String × Tree))

/-- An open container that waits for a value. -/
inductive Slot where
  | item (items : List Tree)
  | member (members : List (Option String × Tree)) (key : Option String)

/-- What may come next, within the open containers. -/
inductive Reading where
  | value (slots : List Slot)
  | firstItem (slots : List Slot)
  | firstKey (slots : List Slot)
  | key (members : List (Option String × Tree)) (slots : List Slot)
  | colon (members : List (Option String × Tree)) (key : Option String) (slots : List Slot)
  | afterItem (items : List Tree) (slots : List Slot)
  | afterMember (members : List (Option String × Tree)) (slots : List Slot)
  | finished (t : Tree)

def textOf (s : List Char) : Option (Option String) :=
  (unescape s).map fun pieces => (pairUnits pieces).map String.ofList

def leaf : Token → Option Tree
  | .mark _ => none
  | .bare s =>
    if s = "null".toList then some .null
    else if s = "true".toList then some (.bool true)
    else if s = "false".toList then some (.bool false)
    else (Written.read s).map .number
  | .quoted s => (textOf s).map .text

/-- Puts a finished value where one was waited for. -/
def deliver (t : Tree) : List Slot → Reading
  | [] => .finished t
  | .item items :: slots => .afterItem (items ++ [t]) slots
  | .member members key :: slots => .afterMember (members ++ [(key, t)]) slots

/-- A token at the beginning of a value. -/
def begin (slots : List Slot) (t : Token) : Option Reading :=
  if t = .mark '[' then some (.firstItem slots)
  else if t = .mark '{' then some (.firstKey slots)
  else (leaf t).map (deliver · slots)

/-- A token in the place of a key. -/
def beginMember (members : List (Option String × Tree)) (slots : List Slot) :
    Token → Option Reading
  | .quoted s => (textOf s).map (.colon members · slots)
  | _ => none

def Reading.step : Reading → Token → Option Reading
  | .value slots, t => begin slots t
  | .firstItem slots, t =>
    if t = .mark ']' then some (deliver (.array []) slots) else begin (.item [] :: slots) t
  | .firstKey slots, t =>
    if t = .mark '}' then some (deliver (.object []) slots) else beginMember [] slots t
  | .key members slots, t => beginMember members slots t
  | .colon members k slots, t =>
    if t = .mark ':' then some (.value (.member members k :: slots)) else none
  | .afterItem items slots, t =>
    if t = .mark ',' then some (.value (.item items :: slots))
    else if t = .mark ']' then some (deliver (.array items) slots)
    else none
  | .afterMember members slots, t =>
    if t = .mark ',' then some (.key members slots)
    else if t = .mark '}' then some (deliver (.object members) slots)
    else none
  | .finished _, _ => none

def treeOfTokens (tokens : List Token) : Option Tree :=
  match tokens.foldlM Reading.step (.value []) with
  | some (.finished t) => some t
  | _ => none

def tree (s : String) : Option Tree := (lex s.toList).bind treeOfTokens

end CaseUpdate.Json
