import Wordstack.Value.Basic
import Wordstack.Binary64.Read
import Wordstack.Calendar.Zone

/-!
# Literals

A bare word may stand for a value. Each kind of literal has its own reader, which declines texts of
any other kind.

- **Booleans** (`Literal.bool`), **integers** (`Literal.int`) in canonical decimal form, **floating
  point numbers** (`Literal.float`) with a point.
- **Times** (`Literal.datetime`): with an offset a point in time, without one a wall clock time.
- **Dates** (`Literal.date`): `YYYY`, `MM` and `DD` stand for parts of today's date; whether a text
  has one of them (`Literal.usesToday`).
- **Standard readers** (`Literal.standard`), in the order in which they are tried.
-/

namespace Wordstack

/-- A reader of one kind of literal. -/
abbrev LiteralReader := String → Option Val

namespace Literal

/-- `TRUE` and `FALSE`. -/
def bool : LiteralReader := fun text =>
  if text == "TRUE" then some (.bool true) else if text == "FALSE" then some (.bool false) else none

/-- Whether the characters are the decimal text of a natural number. -/
def isCanonicalNat (cs : List Char) : Bool :=
  Text.allDigits cs && (cs == ['0'] || cs.head? != some '0')

/-- Integers without leading zeros, plus sign or minus zero. -/
def int : LiteralReader := fun text =>
  let cs := text.toList
  let digits := if cs.head? == some '-' then cs.drop 1 else cs
  if isCanonicalNat digits && cs != ['-', '0'] then some (.int (Text.toInt cs)) else none

/-- Numbers with a decimal point, a digit on either side of it and an optional exponent. -/
def float : LiteralReader := fun text =>
  let cs := text.toList
  let (negative, body) := match cs with
    | '-' :: r => (true, r)
    | '+' :: r => (false, r)
    | r => (false, r)
  if (body.dropWhile Char.isDigit).head? == some '.' then
    (Binary64.readDecimal negative body).map .float
  else none

/-- The text after one given character. -/
def expect (c : Char) : List Char → Option (List Char)
  | x :: rest => if x == c then some rest else none
  | [] => none

/-- The text after `n` digits. -/
def expectDigits (n : Nat) (cs : List Char) : Option (List Char) :=
  (Calendar.readDigits n cs).map (·.2)

/-- Whether the text is a date and time, and if so whether an offset follows. -/
def datetimeOffset? (cs : List Char) : Option Bool := do
  let r ← (expectDigits 4 cs).bind (expect '-')
  let r ← (expectDigits 2 r).bind (expect '-')
  let r ← (expectDigits 2 r).bind (expect 'T')
  let r ← (expectDigits 2 r).bind (expect ':')
  let r ← expectDigits 2 r
  let r ← match r with
    | ':' :: r => do
      let r ← expectDigits 2 r
      match r with
      | '.' :: r =>
        if (r.takeWhile Char.isDigit).isEmpty then none else some (r.dropWhile Char.isDigit)
      | r => some r
    | r => some r
  match r with
  | [] => some false
  | ['Z'] => some true
  | sign :: r =>
    if sign == '+' || sign == '-' then
      let r ← (expectDigits 2 r).bind (expect ':')
      let r ← expectDigits 2 r
      if r.isEmpty then some true else none
    else none

/-- Points in time, and wall clock times in `zone`. -/
def datetime (zone : String) : LiteralReader := fun text =>
  match datetimeOffset? text.toList with
  | some true => if (Calendar.readTimestamp text).isSome then some (.instant text) else none
  | some false =>
    if (Calendar.readTimestamp (text ++ "Z")).isSome then some (.zoned text zone) else none
  | none => none

/-- One part of a date: `n` digits, or the wildcard for today's part. -/
def datePart (n : Nat) (wildcard : String) (today : String) (cs : List Char) :
    Option (String × List Char) :=
  match Calendar.readDigits n cs with
  | some (_, rest) => some (String.ofList (cs.take n), rest)
  | none => if cs.take n == wildcard.toList then some (today, cs.drop n) else none

/-- The year, month and day of a date as they are written, with those of today for wildcards. -/
def dateParts (today : String × String × String) (text : String) :
    Option (String × String × String) := do
  let (year, r) ← datePart 4 "YYYY" today.1 text.toList
  let r ← expect '-' r
  let (month, r) ← datePart 2 "MM" today.2.1 r
  let r ← expect '-' r
  let (day, r) ← datePart 2 "DD" today.2.2 r
  if r.isEmpty then some (year, month, day) else none

/-- Whether a text is a date with a wildcard. -/
def usesToday (text : String) : Bool :=
  match dateParts ("", "", "") text with
  | some (year, month, day) => year.isEmpty || month.isEmpty || day.isEmpty
  | none => false

/-- The year of a date as it is written, counted from one in either era. -/
def yearPart (d : Calendar.Date) : String :=
  toString (if d.year ≤ 0 then 1 - d.year else d.year)

/-- Whether the parts are a calendar date from the year 100 on and not beyond all timestamps. -/
def isDatable (d : Calendar.Date) : Bool :=
  100 ≤ d.year && Calendar.isDate d &&
    Calendar.dayNumber d * 86400000 ≤ (Calendar.timestampLimit : Int)

/-- Calendar dates, with wildcards for the parts of the date of `now` in `zone`. -/
def date (zone : String) (now : Int) : LiteralReader := fun text => do
  let today := Calendar.dateAt zone now
  let (year, month, day) ←
    dateParts (yearPart today, Calendar.padded 2 today.month, Calendar.padded 2 today.day) text
  let number := fun (s : String) => Text.digitsToNat s.toList
  if isDatable ⟨number year, number month, number day⟩ then
    some (.plainDate (year ++ "-" ++ month ++ "-" ++ day))
  else none

/-- The standard readers in the order in which they are tried. -/
def standard (zone : String) (now : Int) : List LiteralReader :=
  [bool, int, float, datetime zone, date zone now]

end Literal

end Wordstack
