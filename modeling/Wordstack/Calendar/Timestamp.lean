import Wordstack.Calendar.Written

/-!
# Timestamps

A timestamp is a number of milliseconds from 1970-01-01T00:00:00Z, at most `8.64e15` either way.

- **In digits** (`Calendar.readDateTime`): a year, year and month or date, then an optional time and
  an optional zone. The day runs from 1 to 31 in every month; the hour 24 stands only for the
  midnight that ends the day.
- **Reading** (`Calendar.readTimestamp`): a date and time in digits, or as people write them.
- **Writing** (`Calendar.timestampText`): the date and time in UTC with milliseconds.
-/

namespace Wordstack

namespace Calendar

/-- The largest magnitude of a timestamp. -/
def timestampLimit : Nat := 8640000000000000

/-- The number of exactly `n` digits at the start, and what follows them. -/
def readDigits (n : Nat) (cs : List Char) : Option (Nat × List Char) :=
  let ds := cs.take n
  if ds.length == n && ds.all Char.isDigit then some (Text.digitsToNat ds, cs.drop n) else none

/-- A year of four digits, or of six digits after a sign; six zeros take only `+`. -/
def readYear : List Char → Option (Int × List Char)
  | '+' :: cs => (readDigits 6 cs).map fun r => ((r.1 : Int), r.2)
  | '-' :: cs => (readDigits 6 cs).bind fun r => if r.1 = 0 then none else some (-(r.1 : Int), r.2)
  | cs => (readDigits 4 cs).map fun r => ((r.1 : Int), r.2)

/-- A two-digit number between bounds after a mark, or the default when the mark is absent. -/
def readPart (mark : Char) (low high dflt : Nat) (cs : List Char) :
    Option (Bool × Nat × List Char) :=
  match cs with
  | c :: rest =>
    if c == mark then
      (readDigits 2 rest).bind fun r =>
        if low ≤ r.1 && r.1 ≤ high then some (true, r.1, r.2) else none
    else some (false, dflt, cs)
  | [] => some (false, dflt, [])

/-- A date of one to three parts as a day number, and what follows it. -/
def readDay (cs : List Char) : Option (Int × List Char) := do
  let (year, rest) ← readYear cs
  let (hasMonth, month, rest) ← readPart '-' 1 12 1 rest
  let (_, day, rest) ← if hasMonth then readPart '-' 1 31 1 rest else some (false, 1, rest)
  return (dayNumber ⟨year, month, 1⟩ + (day - 1 : Nat), rest)

/-- Milliseconds of a fraction's digits: the first three count. -/
def milliseconds (ds : List Char) : Nat := Text.digitsToNat ((ds ++ ['0', '0', '0']).take 3)

/-- A time of day in milliseconds, and what follows it. -/
def readTime (cs : List Char) : Option (Nat × List Char) := do
  let (hour, rest) ← readDigits 2 cs
  let (hasMinute, minute, rest) ← readPart ':' 0 59 0 rest
  let (hasSecond, second, rest) ← readPart ':' 0 59 0 rest
  let (fraction, rest) := match rest with
    | '.' :: r =>
      if hasSecond then (some (r.takeWhile Char.isDigit), r.dropWhile Char.isDigit)
      else (none, rest)
    | _ => (none, rest)
  let digits := fraction.getD []
  let midnight := minute == 0 && second == 0 && digits.all (· == '0')
  if hasMinute && fraction != some [] && (hour ≤ 23 || (hour == 24 && midnight)) then
    some ((hour * 60 + minute) * 60000 + second * 1000 + milliseconds digits, rest)
  else none

/-- An offset from UTC in minutes: `Z`, or a sign, hours and minutes. -/
def readOffset : List Char → Option Int
  | [] => some 0
  | [z] => if z == 'Z' || z == 'z' then some 0 else none
  | sign :: cs =>
    if sign == '+' || sign == '-' then do
      let (hour, rest) ← readDigits 2 cs
      let (minute, rest) ← readDigits 2 (if rest.head? == some ':' then rest.drop 1 else rest)
      if rest.isEmpty && hour ≤ 23 && minute ≤ 59 then
        let minutes : Int := hour * 60 + minute
        some (if sign == '-' then -minutes else minutes)
      else none
    else none

/-- The milliseconds of a date and time in digits. A date alone has no zone. -/
def readDateTime (cs : List Char) : Option Int := do
  let (day, rest) ← readDay cs
  let (time, rest) ← match rest with
    | 'T' :: r | 't' :: r => readTime r
    | r => if r.isEmpty then some (0, r) else none
  let offset ← readOffset rest
  return day * 86400000 + time - offset * 60000

/-- The timestamp that a text stands for. The text ends at its first `U+0000`. -/
def readTimestamp (s : String) : Option Int :=
  let cs := s.toList.takeWhile (· != '\x00')
  let t := (readDateTime cs).or ((WrittenDate.read cs).bind WrittenDate.milliseconds?)
  t.filter fun t => t.natAbs ≤ timestampLimit

/-- The day that a timestamp falls on and the milliseconds since it began. -/
def splitTimestamp (t : Int) : Int × Nat := (t.fdiv 86400000, (t.fmod 86400000).toNat)

/-- A year as four digits, outside `0000` to `9999` as six digits after a sign. -/
def yearText (y : Int) : String :=
  if 0 ≤ y && y ≤ 9999 then padded 4 y.toNat
  else (if y < 0 then "-" else "+") ++ padded 6 y.natAbs

/-- A timestamp as a UTC date and time with milliseconds. -/
def timestampText (t : Int) : String :=
  let (day, ms) := splitTimestamp t
  let d := dateOfDay day
  yearText d.year ++ "-" ++ padded 2 d.month ++ "-" ++ padded 2 d.day ++ "T" ++
    padded 2 (ms / 3600000) ++ ":" ++ padded 2 (ms / 60000 % 60) ++ ":" ++
    padded 2 (ms / 1000 % 60) ++ "." ++ padded 3 (ms % 1000) ++ "Z"

end Calendar

end Wordstack
