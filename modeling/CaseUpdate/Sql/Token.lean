import CaseUpdate.Decimal.Numeral
import CaseUpdate.Sql.Literal
import CaseUpdate.Sql.Name

namespace CaseUpdate.Sql

/-- The lexical rules of a database: how literals are written, and the name styles in which a
doubled closing delimiter is a character of the name. -/
structure Lexis where
  literals : LiteralStyle
  doubled : NameStyle → Bool

/-- Doubled delimiters in all styles. -/
def Dialect.lexis (d : Dialect) : Lexis := ⟨d.literalStyle, fun _ => true⟩

inductive Token where
  | word (s : String)
  | numeral (s : String)
  | text (s : String)
  | name (style : NameStyle) (s : String)
  | mark (c : Char)
deriving DecidableEq

/-- The token that the scanner is in, with its characters so far in reverse. After a quote or a
closing delimiter the next character decides whether the token has ended or goes on with that
delimiter as a character of its own. -/
inductive Scanning where
  | between
  | word (rev : List Char)
  | numeral (rev : List Char)
  | text (rev : List Char)
  | textEscape (rev : List Char)
  | textQuote (rev : List Char)
  | name (style : NameStyle) (rev : List Char)
  | nameClose (style : NameStyle) (rev : List Char)
  /-- After a minus, which a second one makes a comment up to the end of the line. -/
  | dash
  | lineComment
  /-- After a slash, which a star makes a comment up to a star and a slash. -/
  | slash
  | blockComment
  | blockStar

def isGap (c : Char) : Bool :=
  c = ' ' || c = '\t' || c = '\n' || c = '\r' || c = '\x0c'

/-- Whether a character is a token by itself wherever it stands between tokens. -/
def isMark (c : Char) : Bool :=
  c = '(' || c = ')' || c = ',' || c = ';' || c = '=' || c = '+' || c = '*' || c = '%'

def isWordStart (c : Char) : Bool := c.isAlpha || c = '_' || 0x80 ≤ c.toNat

def isWordPart (c : Char) : Bool := isWordStart c || c.isDigit || c = '$'

/-- Whether a character goes on with a numeral, whose characters so far are given in reverse.
Letters do, since no word can follow a numeral at once, and a sign does after the letter of the
exponent. -/
def isNumeralPart (rev : List Char) (c : Char) : Bool :=
  isWordPart c || c = '.' ||
    ((c = '+' || c = '-') && (rev.head? = some 'e' || rev.head? = some 'E'))

/-- The token of a numeral, which must be digits with an optional fraction and exponent. -/
def numeralToken (rev : List Char) : Option Token :=
  if (Decimal.readNumeral rev.reverse).isSome then some (.numeral (String.ofList rev.reverse))
  else none

def openedStyle (c : Char) : Option NameStyle :=
  [NameStyle.backtick, .doubleQuote, .bracket].find? fun style => style.opening = c

namespace Scanning

/-- What a character starts where no token is open. -/
def start (c : Char) : Option (List Token × Scanning) :=
  if isGap c then some ([], .between)
  else if isMark c then some ([.mark c], .between)
  else if c = '-' then some ([], .dash)
  else if c = '/' then some ([], .slash)
  else if c = apostrophe then some ([], .text [])
  else if c.isDigit || c = '.' then some ([], .numeral [c])
  else if isWordStart c then some ([], .word [c])
  else (openedStyle c).map fun style => ([], .name style [])

/-- Ends a token before a character. -/
def endBefore (t : Token) (c : Char) : Option (List Token × Scanning) :=
  (start c).map fun r => (t :: r.1, r.2)

/-- One character: the tokens that it ends, and the state after it. -/
def step (lexis : Lexis) : Scanning → Char → Option (List Token × Scanning)
  | .between, c => start c
  | .word rev, c =>
    if isWordPart c then some ([], .word (c :: rev))
    else endBefore (.word (String.ofList rev.reverse)) c
  | .numeral rev, c =>
    if isNumeralPart rev c then some ([], .numeral (c :: rev))
    else (numeralToken rev).bind fun t => endBefore t c
  | .text rev, c =>
    if c = apostrophe then some ([], .textQuote rev)
    else if c = '\\' ∧ lexis.literals = .backslash then some ([], .textEscape rev)
    else some ([], .text (c :: rev))
  | .textEscape rev, c => some ([], .text (backslashMeaning c :: rev))
  | .textQuote rev, c =>
    if c = apostrophe then some ([], .text (c :: rev))
    else endBefore (.text (String.ofList rev.reverse)) c
  | .name style rev, c =>
    if c = style.closing then
      if lexis.doubled style then some ([], .nameClose style rev)
      else some ([.name style (String.ofList rev.reverse)], .between)
    else some ([], .name style (c :: rev))
  | .nameClose style rev, c =>
    if c = style.closing then some ([], .name style (c :: rev))
    else endBefore (.name style (String.ofList rev.reverse)) c
  | .dash, c => if c = '-' then some ([], .lineComment) else endBefore (.mark '-') c
  | .lineComment, c => some ([], if c = '\n' then .between else .lineComment)
  | .slash, c => if c = '*' then some ([], .blockComment) else endBefore (.mark '/') c
  | .blockComment, c => some ([], if c = '*' then .blockStar else .blockComment)
  | .blockStar, c =>
    some ([], if c = '/' then .between else if c = '*' then .blockStar else .blockComment)

/-- The token that the end of the text ends; literals and names must be closed by then, comments
need not be. -/
def finish : Scanning → Option (List Token)
  | .between | .lineComment | .blockComment | .blockStar => some []
  | .word rev => some [.word (String.ofList rev.reverse)]
  | .numeral rev => (numeralToken rev).map fun t => [t]
  | .textQuote rev => some [.text (String.ofList rev.reverse)]
  | .nameClose style rev => some [.name style (String.ofList rev.reverse)]
  | .dash => some [.mark '-']
  | .slash => some [.mark '/']
  | .text _ | .textEscape _ | .name _ _ => none

/-- The tokens of a text, from a state of the scanner on. -/
def run (lexis : Lexis) : Scanning → List Char → Option (List Token)
  | st, [] => st.finish
  | st, c :: s => do
    let (tokens, st') ← st.step lexis c
    let rest ← run lexis st' s
    return tokens ++ rest

end Scanning

def scan (lexis : Lexis) (s : List Char) : Option (List Token) := Scanning.run lexis .between s

end CaseUpdate.Sql
