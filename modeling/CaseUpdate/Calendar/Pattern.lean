import CaseUpdate.Calendar.Instant
import CaseUpdate.Json.Printer

namespace CaseUpdate.Calendar

/-- What stands before a number that is too short. -/
inductive Padding where
  | none
  | space
  | zero
deriving DecidableEq

inductive Field where
  | year
  | century
  | yearOfCentury
  | isoYear
  | isoYearOfCentury
  | quarter
  | month
  | day
  | weekFromSunday
  | weekFromMonday
  | isoWeek
  | weekdayFromSunday
  | weekdayFromMonday
  | dayOfYear
  | hour
  | hour12
  | minute
  | second
  | nanosecond
  | unixSeconds
deriving DecidableEq

/-- A piece of a pattern: a character that stands for itself, or what a directive asks for. -/
inductive Item where
  | literal (c : Char)
  | number (f : Field) (p : Padding)
  | monthName (full : Bool)
  | dayName (full : Bool)
  | halfDay (upper : Bool)
  /-- A point and the fraction of the second, in as few groups of three digits as are exact. -/
  | fraction
  /-- So many digits of the fraction, perhaps after a point. -/
  | fractionDigits (point : Bool) (digits : Nat)
  /-- Something of a time zone, which an instant does not have. -/
  | zone
deriving DecidableEq

def directive (c : Char) : Option (List Item) :=
  let num (f : Field) : Item := .number f .zero
  let spaced (f : Field) : Item := .number f .space
  let bare (f : Field) : Item := .number f .none
  let date : List Item := [num .year, .literal '-', num .month, .literal '-', num .day]
  let minutes : List Item := [num .hour, .literal ':', num .minute]
  let seconds : List Item := minutes ++ [.literal ':', num .second]
  let american : List Item :=
    [num .month, .literal '/', num .day, .literal '/', num .yearOfCentury]
  match c with
  | 'Y' => some [num .year]
  | 'C' => some [num .century]
  | 'y' => some [num .yearOfCentury]
  | 'G' => some [num .isoYear]
  | 'g' => some [num .isoYearOfCentury]
  | 'q' => some [bare .quarter]
  | 'm' => some [num .month]
  | 'd' => some [num .day]
  | 'e' => some [spaced .day]
  | 'j' => some [num .dayOfYear]
  | 'U' => some [num .weekFromSunday]
  | 'W' => some [num .weekFromMonday]
  | 'V' => some [num .isoWeek]
  | 'w' => some [bare .weekdayFromSunday]
  | 'u' => some [bare .weekdayFromMonday]
  | 'H' => some [num .hour]
  | 'k' => some [spaced .hour]
  | 'I' => some [num .hour12]
  | 'l' => some [spaced .hour12]
  | 'M' => some [num .minute]
  | 'S' => some [num .second]
  | 'f' => some [num .nanosecond]
  | 's' => some [bare .unixSeconds]
  | 'b' => some [.monthName false]
  | 'h' => some [.monthName false]
  | 'B' => some [.monthName true]
  | 'a' => some [.dayName false]
  | 'A' => some [.dayName true]
  | 'p' => some [.halfDay true]
  | 'P' => some [.halfDay false]
  | 'D' => some american
  | 'x' => some american
  | 'F' => some date
  | 'v' => some
    [spaced .day, .literal '-', .monthName false, .literal '-', num .year]
  | 'R' => some minutes
  | 'T' => some seconds
  | 'X' => some seconds
  | 'r' => some
    [num .hour12, .literal ':', num .minute, .literal ':', num .second, .literal ' ',
      .halfDay true]
  | 'c' => some
    ([.dayName false, .literal ' ', .monthName false, .literal ' ', spaced .day, .literal ' '] ++
      seconds ++ [.literal ' ', num .year])
  | 't' => some [.literal '\t']
  | 'n' => some [.literal '\n']
  | '%' => some [.literal '%']
  | 'z' => some [.zone]
  | 'Z' => some [.zone]
  | '+' => some [.zone]
  | _ => none

/-- The item of a directive after a padding modifier, which single numbers alone admit. -/
def paddedDirective (p : Padding) (c : Char) : Option (List Item) :=
  match directive c with
  | some [.number f _] => some [.number f p]
  | _ => none

/-- How much of a directive has been read. -/
inductive Directive where
  /-- None is open. -/
  | outside
  | percent
  | padded (p : Padding)
  | alternate
  | point
  | pointDigits (n : Nat)
  | digits (n : Nat)
  | colons (n : Nat)
deriving DecidableEq

namespace Directive

def digitCount (c : Char) : Option Nat :=
  if c = '3' then some 3 else if c = '6' then some 6 else if c = '9' then some 9 else none

def afterPercent (c : Char) : Option (List Item × Directive) :=
  if c = '-' then some ([], .padded .none)
  else if c = '_' then some ([], .padded .space)
  else if c = '0' then some ([], .padded .zero)
  else if c = '#' then some ([], .alternate)
  else if c = '.' then some ([], .point)
  else if c = ':' then some ([], .colons 1)
  else match digitCount c with
    | some n => some ([], .digits n)
    | none => (directive c).map (·, .outside)

/-- One character: the items that it completes, and the state after it. -/
def step : Directive → Char → Option (List Item × Directive)
  | .outside, c => some (if c = '%' then ([], .percent) else ([.literal c], .outside))
  | .percent, c => afterPercent c
  | .padded p, c => (paddedDirective p c).map (·, .outside)
  | .alternate, c => if c = 'z' then some ([.zone], .outside) else none
  | .point, c =>
    if c = 'f' then some ([.fraction], .outside)
    else (digitCount c).map fun n => ([], .pointDigits n)
  | .pointDigits n, c => if c = 'f' then some ([.fractionDigits true n], .outside) else none
  | .digits n, c => if c = 'f' then some ([.fractionDigits false n], .outside) else none
  | .colons n, c =>
    if c = 'z' then some ([.zone], .outside)
    else if c = ':' ∧ n < 3 then some ([], .colons (n + 1))
    else none

/-- The items of the rest of a pattern. It may not end inside a directive. -/
def run : Directive → List Char → Option (List Item)
  | d, [] => if d = .outside then some [] else none
  | d, c :: s => do
    let (items, d') ← d.step c
    let rest ← run d' s
    return items ++ rest

end Directive

/-- The items of a pattern, or nothing where a directive is not known. No instant is needed for
this, so that a pattern can be refused before any is at hand. -/
def readPattern (pattern : String) : Option (List Item) :=
  Directive.outside.run pattern.toList

def padLeft (c : Char) (width : Nat) (s : List Char) : List Char :=
  List.replicate (width - s.length) c ++ s

/-- A number in a field of two places. Its tens are one character, however many they are. -/
def twoPlaces (p : Padding) (n : Nat) : List Char :=
  let tens := n / 10
  let ones := Nat.digitChar (n % 10)
  if tens = 0 ∧ p = .none then [ones]
  else if tens = 0 ∧ p = .space then [' ', ones]
  else [Char.ofNat ('0'.toNat + tens), ones]

/-- A number in a field of a width. Zeros go between the sign and the digits, blanks before the
sign. -/
def places (p : Padding) (width : Nat) (sign : List Char) (n : Nat) : List Char :=
  let digits := Nat.toDigits 10 n
  match p with
  | .none => sign ++ digits
  | .space => padLeft ' ' width (sign ++ digits)
  | .zero => sign ++ padLeft '0' (width - sign.length) digits

/-- A year in four places; outside of 0 to 9999 it always has a sign, which takes a place more. -/
def yearPlaces (p : Padding) (year : Int) : List Char :=
  if 0 ≤ year ∧ year < 10000 then places p 4 [] year.natAbs
  else places p 5 [if year < 0 then '-' else '+'] year.natAbs

def monthNames : List String :=
  ["January", "February", "March", "April", "May", "June", "July", "August", "September",
    "October", "November", "December"]

def dayNames : List String :=
  ["Sunday", "Monday", "Tuesday", "Wednesday", "Thursday", "Friday", "Saturday"]

def nameText (names : List String) (index : Nat) (full : Bool) : List Char :=
  let name := (names[index]?.getD "").toList
  if full then name else name.take 3

def Time.subsecond (t : Time) : Nat := t.nanos % nanosPerSecond

def Time.fractionText (t : Time) (digits : Nat) : List Char :=
  (padLeft '0' 9 (Nat.toDigits 10 t.subsecond)).take digits

def Field.text (f : Field) (p : Padding) (t : Instant) : List Char :=
  let year := t.date.year
  match f with
  | .year => yearPlaces p year
  -- The century of a far year wraps round in a byte.
  | .century => twoPlaces p (year / 100 % 256).toNat
  | .yearOfCentury => twoPlaces p (year % 100).toNat
  | .isoYear => yearPlaces p t.date.isoYear
  | .isoYearOfCentury => twoPlaces p (t.date.isoYear % 100).toNat
  | .quarter => Nat.toDigits 10 t.date.quarter
  | .month => twoPlaces p t.date.month
  | .day => twoPlaces p t.date.day
  | .weekFromSunday => twoPlaces p t.date.weekFromSunday
  | .weekFromMonday => twoPlaces p t.date.weekFromMonday
  | .isoWeek => twoPlaces p t.date.isoWeek
  | .weekdayFromSunday => Nat.toDigits 10 t.date.weekday
  | .weekdayFromMonday => Nat.toDigits 10 t.date.isoWeekday
  | .dayOfYear => places p 3 [] t.date.dayOfYear
  | .hour => twoPlaces p t.time.hour
  | .hour12 => twoPlaces p (if t.time.hour % 12 = 0 then 12 else t.time.hour % 12)
  | .minute => twoPlaces p t.time.minute
  | .second => twoPlaces p (t.time.second + t.time.nanos / nanosPerSecond)
  | .nanosecond => places p 9 [] t.time.subsecond
  | .unixSeconds =>
    places p 9 (if t.unixSeconds < 0 then ['-'] else []) t.unixSeconds.natAbs

/-- What an item writes of an instant; a zone cannot be written. -/
def Item.text (t : Instant) : Item → Option (List Char)
  | .literal c => some [c]
  | .number f p => some (f.text p t)
  | .monthName full => some (nameText monthNames (t.date.month - 1) full)
  | .dayName full => some (nameText dayNames t.date.weekday full)
  | .halfDay upper =>
    let s := if t.time.hour < 12 then "am" else "pm"
    some (if upper then s.toList.map Char.toUpper else s.toList)
  | .fraction =>
    let n := t.time.subsecond
    some (if n = 0 then []
      else if n % 1000000 = 0 then '.' :: t.time.fractionText 3
      else if n % 1000 = 0 then '.' :: t.time.fractionText 6
      else '.' :: t.time.fractionText 9)
  | .fractionDigits point digits =>
    some (if point then '.' :: t.time.fractionText digits else t.time.fractionText digits)
  | .zone => none

def itemsText (t : Instant) : List Item → Option (List Char)
  | [] => some []
  | i :: rest => do
    let s ← i.text t
    let rest ← itemsText t rest
    return s ++ rest

def Instant.format (t : Instant) (pattern : String) : Option String :=
  ((readPattern pattern).bind (itemsText t)).map String.ofList

/-- The pattern of instants that are stored without one of their own. -/
def defaultPattern : String := "%Y-%m-%d %H:%M:%S"

def Date.stored (d : Date) : String :=
  String.ofList (yearPlaces .zero d.year ++ '-' :: twoPlaces .zero d.month ++
    '-' :: twoPlaces .zero d.day)

/-- An instant as it is stored: in the default pattern. -/
def Instant.stored (t : Instant) : String := (t.format defaultPattern).getD ""

end CaseUpdate.Calendar
