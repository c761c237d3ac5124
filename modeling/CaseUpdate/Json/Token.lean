namespace CaseUpdate.Json

inductive Token where
  /-- One of the six marks. -/
  | mark (c : Char)
  /-- A number or a literal name. -/
  | bare (s : List Char)
  /-- What stands between the quotes of a string. -/
  | quoted (s : List Char)
deriving DecidableEq

/-- The token that the lexer is in, with its characters so far in reverse. A string ends at the
first quote that no backslash precedes, a bare token at the first character that is neither letter
nor digit nor sign nor point. -/
inductive Lexing where
  | between
  | bare (rev : List Char)
  | quoted (rev : List Char)
  | escaped (rev : List Char)

def isGap (c : Char) : Bool := c = ' ' || c = '\t' || c = '\n' || c = '\r'

def isMark (c : Char) : Bool :=
  c = '[' || c = ']' || c = '{' || c = '}' || c = ':' || c = ','

def isBare (c : Char) : Bool := c.isAlphanum || c = '+' || c = '-' || c = '.'

/-- What a character starts where no token is open. -/
def Lexing.start (c : Char) : Option (List Token × Lexing) :=
  if isGap c then some ([], .between)
  else if isMark c then some ([.mark c], .between)
  else if c = '"' then some ([], .quoted [])
  else if isBare c then some ([], .bare [c])
  else none

/-- One character: the tokens that it ends, and the state after it. -/
def Lexing.step : Lexing → Char → Option (List Token × Lexing)
  | .between, c => start c
  | .bare rev, c =>
    if isBare c then some ([], .bare (c :: rev))
    else (start c).map fun r => (.bare rev.reverse :: r.1, r.2)
  | .quoted rev, c =>
    if c = '"' then some ([.quoted rev.reverse], .between)
    else if c = '\\' then some ([], .escaped (c :: rev))
    else some ([], .quoted (c :: rev))
  | .escaped rev, c => some ([], .quoted (c :: rev))

/-- The tokens of a text, from a state of the lexer on. -/
def Lexing.run : Lexing → List Char → Option (List Token)
  | .between, [] => some []
  | .bare rev, [] => some [.bare rev.reverse]
  | .quoted _, [] => none
  | .escaped _, [] => none
  | l, c :: s => do
    let (tokens, l') ← l.step c
    let rest ← run l' s
    return tokens ++ rest

def lex (s : List Char) : Option (List Token) := Lexing.between.run s

end CaseUpdate.Json
