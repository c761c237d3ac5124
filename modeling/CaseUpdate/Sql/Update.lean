import CaseUpdate.Sql.Token
import CaseUpdate.Step

namespace CaseUpdate.Sql

/-- A name with the style in which it was quoted. -/
structure Name where
  style : NameStyle
  text : String
deriving DecidableEq

/-- A value in a statement: a constant, a column, or arithmetic on values. -/
inductive Expr where
  | null
  | text (s : String)
  /-- A numeral, perhaps with a minus right before it. -/
  | numeral (negative : Bool) (s : String)
  | column (name : Name)
  | negative (e : Expr)
  | binary (op : Operator) (left right : Expr)
deriving DecidableEq

/-- A branch: where the lookup column has the key, the value. -/
structure When where
  lookup : Name
  key : String
  value : Expr
deriving DecidableEq

/-- A column and the cases of its new value. -/
structure Assignment where
  column : Name
  branches : List When
  otherwise : Name
deriving DecidableEq

/-- A statement that updates a table by cases, as a database understands it: names and texts are
what their tokens denote. -/
structure Update where
  table : Name
  assignments : List Assignment
  lookup : Name
  keys : List String
deriving DecidableEq

def Expr.mapNames (f : Name → Name) : Expr → Expr
  | .column n => .column (f n)
  | .negative e => .negative (e.mapNames f)
  | .binary op e e' => .binary op (e.mapNames f) (e'.mapNames f)
  | e => e

def When.mapNames (f : Name → Name) (w : When) : When :=
  ⟨f w.lookup, w.key, w.value.mapNames f⟩

def Assignment.mapNames (f : Name → Name) (a : Assignment) : Assignment :=
  ⟨f a.column, a.branches.map (When.mapNames f), f a.otherwise⟩

def Update.mapNames (f : Name → Name) (u : Update) : Update :=
  ⟨u.table, u.assignments.map (Assignment.mapNames f), f u.lookup, u.keys⟩

/-- What a word stands for: a constant, or a column like a name in backticks. -/
def Expr.ofWord (w : String) : Expr :=
  let key := w.toList.map Char.toUpper
  if key = "NULL".toList then .null
  else if key = "TRUE".toList then .numeral false "1"
  else if key = "FALSE".toList then .numeral false "0"
  else .column ⟨.backtick, w⟩

def Expr.minus : Expr → Expr
  | .numeral false s => .numeral true s
  | e => .negative e

/-- Puts a value together from a first one and the operators and values after it. `sum` waits on the
left with its operator until no operator that binds more tightly follows. -/
def Expr.chain (sum : Option (Expr × Operator)) (e : Expr) : List (Operator × Expr) → Expr
  | [] => join sum e
  | (op, e') :: rest =>
    if op.isTight then chain sum (.binary op e e') rest
    else chain (some (join sum e, op)) e' rest
where
  join : Option (Expr × Operator) → Expr → Expr
    | some (left, op), e => .binary op left e
    | none, e => e

mutual

/-- A value at the beginning of a list of tokens, and the tokens after it. `fuel` bounds the depth
of the recursion. -/
def Expr.read : Nat → List Token → Option (Expr × List Token)
  | 0, _ => none
  | fuel + 1, tokens => do
    let (e, rest) ← Expr.readOperand fuel tokens
    let (links, rest) ← Expr.readLinks fuel rest
    return (Expr.chain none e links, rest)

/-- A value without an operator of its own, unless in brackets. -/
def Expr.readOperand : Nat → List Token → Option (Expr × List Token)
  | 0, _ => none
  | _ + 1, [] => none
  | _ + 1, .text s :: rest => some (.text s, rest)
  | _ + 1, .numeral s :: rest => some (.numeral false s, rest)
  | _ + 1, .name style s :: rest => some (.column ⟨style, s⟩, rest)
  | _ + 1, .word w :: rest => some (Expr.ofWord w, rest)
  | fuel + 1, .mark c :: rest =>
    if c = '-' then (Expr.readOperand fuel rest).map fun r => (r.1.minus, r.2)
    else if c = '+' then Expr.readOperand fuel rest
    else if c = '(' then
      match Expr.read fuel rest with
      | some (e, .mark d :: rest) => if d = ')' then some (e, rest) else none
      | _ => none
    else none

/-- Operators with a value after each, as many as come. -/
def Expr.readLinks : Nat → List Token → Option (List (Operator × Expr) × List Token)
  | 0, _ => none
  | fuel + 1, .mark c :: rest =>
    match Operator.ofChar? c with
    | some op => do
      let (e, rest) ← Expr.readOperand fuel rest
      let (links, rest) ← Expr.readLinks fuel rest
      return ((op, e) :: links, rest)
    | none => some ([], .mark c :: rest)
  | _ + 1, rest => some ([], rest)

end

/-- Branches, as many as come, and the tokens after them. `fuel` bounds how many. -/
def When.readAll : Nat → List Token → Option (List When × List Token)
  | 0, _ => none
  | fuel + 1, .word w :: rest =>
    if w = "WHEN" then
      match rest with
      | .name style s :: .mark c :: .text key :: .word u :: rest =>
        if c = '=' ∧ u = "THEN" then do
          let (value, rest) ← Expr.read (2 * rest.length + 2) rest
          let (branches, rest) ← readAll fuel rest
          return (⟨⟨style, s⟩, key, value⟩ :: branches, rest)
        else none
      | _ => none
    else some ([], .word w :: rest)
  | _ + 1, rest => some ([], rest)

def Assignment.read : List Token → Option (Assignment × List Token)
  | .name style s :: .mark eq :: .mark opening :: .word w :: rest =>
    if eq = '=' ∧ opening = '(' ∧ w = "CASE" then do
      let (branches, rest) ← When.readAll (rest.length + 1) rest
      match rest with
      | .word u :: .name style' s' :: .word v :: .mark closing :: rest =>
        if branches ≠ [] ∧ u = "ELSE" ∧ v = "END" ∧ closing = ')' then
          some (⟨⟨style, s⟩, branches, ⟨style', s'⟩⟩, rest)
        else none
      | _ => none
    else none
  | _ => none

/-- Assignments with commas between them, and the tokens after them. `fuel` bounds how many. -/
def Assignment.readAll : Nat → List Token → Option (List Assignment × List Token)
  | 0, _ => none
  | fuel + 1, tokens => do
    let (a, rest) ← Assignment.read tokens
    match rest with
    | .mark c :: rest' =>
      if c = ',' then do
        let (as, rest) ← readAll fuel rest'
        return (a :: as, rest)
      else some ([a], rest)
    | _ => some ([a], rest)

/-- Texts with commas between them up to the closing bracket, and the tokens after it. -/
def readKeys : List Token → Option (List String × List Token)
  | .text s :: .mark c :: rest =>
    if c = ')' then some ([s], rest)
    else if c = ',' then (readKeys rest).map fun r => (s :: r.1, r.2)
    else none
  | _ => none

def Update.ofTokens? : List Token → Option Update
  | .word u :: .name style s :: .word v :: rest =>
    if u = "UPDATE" ∧ v = "SET" then do
      let (assignments, rest) ← Assignment.readAll (rest.length + 1) rest
      match rest with
      | .word w :: .name style' s' :: .word i :: .mark opening :: rest =>
        if w = "WHERE" ∧ i = "IN" ∧ opening = '(' then do
          let (keys, rest) ← readKeys rest
          if rest = [.mark ';'] then some ⟨⟨style, s⟩, assignments, ⟨style', s'⟩, keys⟩ else none
        else none
      | _ => none
    else none
  | _ => none

def Update.read (lexis : Lexis) (sql : String) : Option Update :=
  (scan lexis sql.toList).bind Update.ofTokens?

end CaseUpdate.Sql
