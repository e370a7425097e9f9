import LiveTree.Decimal.Literal
import LiveTree.Text.Blank

/-!
Instants of time and their texts. An instant is a second since 1970-01-01T00:00:00Z together with
the nanoseconds into it; a leap second is the second before it with a thousand million more
nanoseconds. The calendar is the Gregorian one for all years.
-/
namespace LiveTree

structure Instant where
  seconds : Int
  nanos : Nat
  deriving DecidableEq, Repr

namespace Instant

structure Day where
  year : Int
  month : Nat
  day : Nat
  deriving DecidableEq, Repr

/-- Days since 1970-01-01. Years are counted from March, so that the leap day ends its year. -/
def Day.number (d : Day) : Int :=
  let year := if d.month ≤ 2 then d.year - 1 else d.year
  let era := year / 400
  let ofEra := year % 400
  let ofYear : Int := ((153 * ((d.month + 9) % 12) + 2) / 5 + d.day : Nat) - 1
  era * 146097 + (ofEra * 365 + ofEra / 4 - ofEra / 100 + ofYear) - 719468

def Day.ofNumber (n : Int) : Day :=
  let era := (n + 719468) / 146097
  let ofEra := (n + 719468) % 146097
  let year := (ofEra - ofEra / 1460 + ofEra / 36524 - ofEra / 146096) / 365
  let ofYear := ofEra - (365 * year + year / 4 - year / 100)
  let month := (5 * ofYear + 2) / 153
  let day := ofYear - (153 * month + 2) / 5 + 1
  let month := if month < 10 then month + 3 else month - 9
  { year := year + era * 400 + (if month ≤ 2 then 1 else 0), month := month.toNat, day := day.toNat }

def isLeap (year : Int) : Bool := year % 4 == 0 && (year % 100 != 0 || year % 400 == 0)

def daysIn (year : Int) (month : Nat) : Nat :=
  if month = 2 then if isLeap year then 29 else 28
  else if month = 4 ∨ month = 6 ∨ month = 9 ∨ month = 11 then 30 else 31

def Day.exists (d : Day) : Bool :=
  1 ≤ d.month && d.month ≤ 12 && 1 ≤ d.day && d.day ≤ daysIn d.year d.month &&
    -262143 ≤ d.year && d.year ≤ 262142

def padded (width n : Nat) : List Char :=
  let ds := Nat.toDigits 10 n
  List.replicate (width - ds.length) '0' ++ ds

def yearText (year : Int) : List Char :=
  if 0 ≤ year ∧ year ≤ 9999 then padded 4 year.toNat
  else (if year < 0 then '-' else '+') :: padded 4 year.natAbs

/-- The instant in UTC with milliseconds: `2024-03-01T12:30:45.123Z`. Finer parts are cut off, and
a leap second is written as second 60. -/
def text (t : Instant) : List Char :=
  let day := Day.ofNumber (t.seconds / 86400)
  let time := (t.seconds % 86400).toNat
  let leap := 1000000000 ≤ t.nanos
  let second := time % 60 + if leap then 1 else 0
  let nanos := if leap then t.nanos - 1000000000 else t.nanos
  yearText day.year ++ '-' :: padded 2 day.month ++ '-' :: padded 2 day.day ++
    'T' :: padded 2 (time / 3600) ++ ':' :: padded 2 (time / 60 % 60) ++ ':' :: padded 2 second ++
    '.' :: padded 3 (nanos / 1000000) ++ ['Z']

def digits? (least most : Nat) (cs : List Char) : Option (Nat × List Char) :=
  let ds := (cs.take most).takeWhile Decimal.isDigit
  if ds.length < least then none else some (Decimal.ofDigits ds, cs.drop ds.length)

def char? (c : Char) : List Char → Option (List Char)
  | d :: cs => if d = c then some cs else none
  | [] => none

def fraction? : List Char → Option (Nat × List Char)
  | '.' :: cs => do
    let ds := (cs.take 9).takeWhile Decimal.isDigit
    guard (ds ≠ [])
    return (Decimal.ofDigits ds * Nat.pow 10 (9 - ds.length), cs.dropWhile Decimal.isDigit)
  | cs => some (0, cs)

def offset? : List Char → Option (Int × List Char)
  | [] => none
  | c :: cs =>
    if c = 'Z' ∨ c = 'z' then some (0, cs)
    else if c = '+' ∨ c = '-' ∨ c = '−' then do
      let (hours, cs) ← digits? 2 2 cs
      let cs ← char? ':' cs
      let (minutes, cs) ← digits? 2 2 cs
      guard (hours ≤ 23 ∧ minutes ≤ 59)
      let seconds : Int := (hours * 60 + minutes) * 60
      return (if c = '+' then seconds else -seconds, cs)
    else none

/-- The instant of a wall clock that runs `offset` seconds ahead of UTC. Second 60 is the leap
second after second 59 of its minute. -/
def ofClock? (day : Day) (hour minute second nanos : Nat) (offset : Int) : Option Instant :=
  if day.exists && hour ≤ 23 && minute ≤ 59 && second ≤ 60 then
    let leap := second = 60
    some {
      seconds := day.number * 86400 + (hour * 60 + minute : Nat) * 60 +
        (if leap then 59 else second : Nat) - offset
      nanos := nanos + if leap then 1000000000 else 0 }
  else none

def readStrict (cs : List Char) : Option Instant := do
  let (year, cs) ← digits? 4 4 cs
  let (month, cs) ← digits? 2 2 (← char? '-' cs)
  let (day, cs) ← digits? 2 2 (← char? '-' cs)
  let cs ← match cs with
    | 'T' :: cs | 't' :: cs | ' ' :: cs => some cs
    | _ => none
  let (hour, cs) ← digits? 2 2 cs
  let (minute, cs) ← digits? 2 2 (← char? ':' cs)
  let (second, cs) ← digits? 2 2 (← char? ':' cs)
  let (nanos, cs) ← fraction? cs
  let (offset, cs) ← offset? cs
  guard cs.isEmpty
  ofClock? { year := year, month := month, day := day } hour minute second nanos offset

def year? (cs : List Char) : Option (Int × List Char) :=
  match Text.trimStart cs with
  | '-' :: cs => (digits? 1 cs.length cs).map fun r => (-(r.1 : Int), r.2)
  | '+' :: cs => (digits? 1 cs.length cs).map fun r => ((r.1 : Int), r.2)
  | cs => (digits? 1 4 cs).map fun r => ((r.1 : Int), r.2)

def field? (cs : List Char) : Option (Nat × List Char) := digits? 1 2 (Text.trimStart cs)

def day? (cs : List Char) : Option (Day × List Char) := do
  let (year, cs) ← year? cs
  let (month, cs) ← field? (← char? '-' cs)
  let (day, cs) ← field? (← char? '-' cs)
  return ({ year := year, month := month, day := day }, cs)

def readLocal (cs : List Char) : Option Instant := do
  let (day, cs) ← day? cs
  let (hour, cs) ← field? (← char? 'T' cs)
  let (minute, cs) ← field? (← char? ':' cs)
  let (second, cs) ← field? (← char? ':' cs)
  let (nanos, cs) ← fraction? cs
  guard cs.isEmpty
  ofClock? day hour minute second nanos 0

def readDay (cs : List Char) : Option Instant := do
  let (day, cs) ← day? cs
  guard cs.isEmpty
  ofClock? day 0 0 0 0 0

def read? (cs : List Char) : Option Instant :=
  let cs := Text.trim cs
  readStrict cs <|> readLocal cs <|> readDay cs

end Instant
end LiveTree
