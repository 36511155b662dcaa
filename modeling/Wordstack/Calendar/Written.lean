import Wordstack.Calendar.Date
import Wordstack.Text.Basic

/-!
# Dates as people write them

Dates such as `5 January 2024, 10:30 PM`, `1/5/2024` and `Jan 5 2024 (Friday) 12:00 GMT+2`.

- **Pieces** (`DatePiece`, `datePieces`): the numbers, marks, words and blanks of a text.
- **Reading** (`WrittenDate.step`): numbers before colons are the time, a sign after the time begins
  an offset from UTC, all other numbers are the date. Words count when they name a month, half of
  the day or a zone; others may stand before the first number only.
- **Meaning** (`WrittenDate.milliseconds?`): month, day and year in this order unless the first
  number cannot be a day; a year below 100 lies between 1950 and 2049. Without a zone the time is in
  UTC.
-/

namespace Wordstack

namespace Calendar

/-! ## Pieces -/

/-- What a word of a date says. -/
inductive DateWord where
  | month (number : Nat)
  /-- Half of the day, by its first hour. -/
  | half (hour : Nat)
  /-- A zone, by its hours ahead of UTC. -/
  | zone (hours : Int)
  | unknown
deriving DecidableEq

/-- A piece of a written date. -/
inductive DatePiece where
  /-- A number and the count of its digits. -/
  | number (n digits : Nat)
  | mark (c : Char)
  | word (w : DateWord) (letters : Nat)
  | blank
  | other
deriving DecidableEq

/-- The beginnings of the names of the months, in order. -/
def monthNames : List String :=
  ["jan", "feb", "mar", "apr", "may", "jun", "jul", "aug", "sep", "oct", "nov", "dec"]

/-- The other words that say something. -/
def dateWords : List (String × DateWord) := [
  ("am", .half 0), ("pm", .half 12), ("ut", .zone 0), ("utc", .zone 0), ("z", .zone 0),
  ("gmt", .zone 0), ("cdt", .zone (-5)), ("cst", .zone (-6)), ("edt", .zone (-4)),
  ("est", .zone (-5)), ("mdt", .zone (-6)), ("mst", .zone (-7)), ("pdt", .zone (-7)),
  ("pst", .zone (-8))]

/-- What a word says, in any case. A month needs its first three letters only. -/
def DateWord.ofLetters (letters : List Char) : DateWord :=
  let letters := letters.map Char.toLower
  match monthNames.findIdx? (· == String.ofList (letters.take 3)) with
  | some index => .month (index + 1)
  | none => (dateWords.lookup (String.ofList letters)).getD .unknown

/-- The characters of words: those from `A` on that are not blank. -/
def isDateLetter (c : Char) : Bool := 'A' ≤ c && !Text.isBlank c

/-- The text after the parenthesis that closes the `depth` open ones. -/
def afterParenthesis (depth : Nat) : List Char → List Char
  | [] => []
  | c :: cs =>
    match depth with
    | 0 => c :: cs
    | depth + 1 =>
      if c == ')' then afterParenthesis depth cs
      else if c == '(' then afterParenthesis (depth + 2) cs
      else afterParenthesis (depth + 1) cs

/-- The piece at the start of a text, and the text after it. Of a long number nine digits count, the
zeros before it aside. -/
def datePiece (c : Char) (rest : List Char) : DatePiece × List Char :=
  if c.isDigit then
    let digits := c :: rest.takeWhile Char.isDigit
    (.number (Text.digitsToNat ((digits.dropWhile (· == '0')).take 9)) digits.length,
      rest.dropWhile Char.isDigit)
  else if [':', '-', '+', '.', ')'].contains c then (.mark c, rest)
  else if isDateLetter c then
    let letters := c :: rest.takeWhile isDateLetter
    (.word (.ofLetters letters) letters.length, rest.dropWhile isDateLetter)
  else if Text.isBlank c then (.blank, rest)
  else if c == '(' then (.other, afterParenthesis 1 rest)
  else (.other, rest)

/-- At most `bound` pieces of a text. -/
def datePiecesWithin (bound : Nat) (cs : List Char) : List DatePiece :=
  match bound, cs with
  | bound + 1, c :: rest =>
    let (piece, rest) := datePiece c rest
    piece :: datePiecesWithin bound rest
  | _, _ => []

/-- The pieces of a text. Each takes a character at least. -/
def datePieces (cs : List Char) : List DatePiece := datePiecesWithin cs.length cs

/-- Leaves out one mark. -/
def skipMark (c : Char) : List DatePiece → List DatePiece
  | .mark x :: rest => if x == c then rest else .mark x :: rest
  | ps => ps

/-! ## Reading -/

/-- Whether a month can have this number. -/
def isMonthNumber (n : Int) : Bool := 1 ≤ n && n ≤ 12

/-- Whether a day of some month can have this number. -/
def isDayNumber (n : Int) : Bool := 1 ≤ n && n ≤ 31

/-- What has been read of a date. -/
structure WrittenDate where
  /-- The numbers of the date in order, at most three. -/
  numbers : List Int := []
  month : Option Nat := none
  /-- Hour, minute, second and millisecond, as far as they are known. -/
  time : List Nat := []
  half : Option Nat := none
  /-- The direction, hours and minutes of the offset from UTC. -/
  ahead : Option Bool := none
  zoneHour : Option Nat := none
  zoneMinute : Option Nat := none
  /-- Whether a number has been read. -/
  begun : Bool := false

namespace WrittenDate

/-- Whether `n` can be the next part of a time that has its hour. -/
def expectsTime (d : WrittenDate) (n : Nat) : Bool :=
  match d.time.length with
  | 1 | 2 => n ≤ 59
  | 3 => n ≤ 999
  | _ => false

/-- Whether `n` can be the minutes of an offset that has its hours. -/
def expectsZoneMinute (d : WrittenDate) (n : Nat) : Bool :=
  d.zoneHour.isSome && d.zoneMinute.isNone && n ≤ 59

/-- Adds a part of the time; a fifth one is left out. -/
def addTime (d : WrittenDate) (n : Nat) : WrittenDate := { d with time := (d.time ++ [n]).take 4 }

/-- Adds the last part of the time. -/
def finishTime (d : WrittenDate) (n : Nat) : WrittenDate :=
  { d with time := (d.time ++ [n, 0, 0, 0]).take 4 }

/-- A zone by its hours ahead of UTC. -/
def setZone (d : WrittenDate) (hours : Int) : WrittenDate :=
  { d with ahead := some (0 ≤ hours), zoneHour := some hours.natAbs, zoneMinute := some 0 }

/-- Whether the zone is UTC. -/
def isUtc (d : WrittenDate) : Bool := d.zoneHour == some 0 && d.zoneMinute == some 0

/-- Milliseconds of a fraction: its first three digits count. -/
def fraction (n digits : Nat) : Nat :=
  if digits < 3 then n * Nat.pow 10 (3 - digits) else n / Nat.pow 10 (min digits 9 - 3)

/-- Whether a time may end before these pieces. -/
def endsTime : List DatePiece → Bool
  | [] | .blank :: _ | .mark '+' :: _ | .mark '-' :: _ | .word (.zone _) 1 :: _ => true
  | _ => false

/-- Takes in a number that no colon follows. -/
def addPlain (d : WrittenDate) (n : Nat) (rest : List DatePiece) :
    Option (WrittenDate × List DatePiece) :=
  if d.expectsZoneMinute n then some ({ d with zoneMinute := some n }, rest)
  else if d.expectsTime n then if endsTime rest then some (d.finishTime n, rest) else none
  else if d.numbers.length < 3 then
    some ({ d with numbers := d.numbers ++ [(n : Int)] }, skipMark '-' rest)
  else none

/-- Takes in a number. -/
def addNumber (d : WrittenDate) (n : Nat) (rest : List DatePiece) :
    Option (WrittenDate × List DatePiece) :=
  match rest with
  | .mark ':' :: .mark ':' :: rest =>
    if d.time.isEmpty then some ({ d with time := [n, 0] }, rest) else none
  | .mark ':' :: rest =>
    if d.time.length < 4 then some (d.addTime n, skipMark '.' rest) else none
  | .mark '.' :: rest =>
    if d.expectsTime n then
      match rest with
      | .number m digits :: rest => some ((d.addTime n).finishTime (fraction m digits), rest)
      | _ => none
    else d.addPlain n rest
  | rest => d.addPlain n rest

/-- Takes in a word. -/
def addWord (d : WrittenDate) (w : DateWord) (rest : List DatePiece) :
    Option (WrittenDate × List DatePiece) :=
  let startsWithNumber := match rest with
    | .number _ _ :: _ => true
    | _ => false
  let skipped := if d.begun || startsWithNumber then none else some (d, rest)
  match w with
  | .half hour => if d.time.isEmpty then skipped else some ({ d with half := some hour }, rest)
  | .month number => some ({ d with month := some number }, skipMark '-' rest)
  | .zone hours => if d.begun then some (d.setZone hours, rest) else skipped
  | .unknown => skipped

/-- Takes in the offset after a sign: hours, hours before a colon, or hours and minutes. -/
def addOffset (d : WrittenDate) (ahead : Bool) (rest : List DatePiece) :
    Option (WrittenDate × List DatePiece) :=
  let (n, digits, rest) := match rest with
    | .number n digits :: rest => (n, digits, rest)
    | rest => (0, 0, rest)
  let d := { d with ahead := some ahead, begun := true }
  if rest.head? == some (.mark ':') then
    some ({ d with zoneHour := some n, zoneMinute := none }, rest)
  else if digits == 1 || digits == 2 then
    some ({ d with zoneHour := some n, zoneMinute := some 0 }, rest)
  else if digits == 3 || digits == 4 then
    some ({ d with zoneHour := some (n / 100), zoneMinute := some (n % 100) }, rest)
  else none

/-- Takes in a piece and what belongs to it, and leaves the pieces after it. -/
def step (d : WrittenDate) (piece : DatePiece) (rest : List DatePiece) :
    Option (WrittenDate × List DatePiece) :=
  match piece with
  | .number n _ => { d with begun := true }.addNumber n rest
  | .word w _ => d.addWord w rest
  | .mark c =>
    if c == '+' || c == '-' then
      if d.isUtc || !d.time.isEmpty then d.addOffset (c == '+') rest
      else if d.begun then none else some (d, rest)
    else if c == ')' && d.begun then none
    else some (d, rest)
  | .blank | .other => some (d, rest)

/-- Takes in all pieces, in at most `bound` steps. -/
def readWithin (bound : Nat) (d : WrittenDate) (ps : List DatePiece) : Option WrittenDate :=
  match bound, ps with
  | _, [] => some d
  | 0, _ => none
  | bound + 1, p :: ps => (d.step p ps).bind fun r => readWithin bound r.1 r.2

/-- Month and day, each after a dash and of two digits, as far as they are there; `bounds` are the
largest numbers that they can be. -/
def furtherNumbers (bounds : List Nat) (numbers : List Int) (ps : List DatePiece) :
    List Int × List DatePiece :=
  match bounds, ps with
  | high :: bounds, .mark '-' :: .number n 2 :: rest =>
    if 1 ≤ n && n ≤ high then furtherNumbers bounds (numbers ++ [(n : Int)]) rest
    else (numbers, .number n 2 :: rest)
  | _ :: _, .mark '-' :: rest => (numbers, rest)
  | _, ps => (numbers, ps)

/-- The numbers of a date that begins with a year of four digits, or of six after a sign. -/
def firstNumbers : List DatePiece → List Int × List DatePiece
  | .number n 4 :: rest => furtherNumbers [12, 31] [(n : Int)] rest
  | .mark '+' :: .number n 6 :: rest => furtherNumbers [12, 31] [(n : Int)] rest
  | .mark '-' :: .number n 6 :: rest =>
    if n = 0 then ([], rest) else furtherNumbers [12, 31] [-(n : Int)] rest
  | ps => ([], ps)

/-- The date of all pieces of a text. -/
def read (cs : List Char) : Option WrittenDate :=
  let (numbers, rest) := firstNumbers (datePieces cs)
  readWithin rest.length { numbers, begun := !numbers.isEmpty } rest

/-! ## Meaning -/

/-- The year that a number stands for. -/
def fullYear (n : Int) : Int :=
  if 0 ≤ n && n ≤ 49 then n + 2000 else if 50 ≤ n && n ≤ 99 then n + 1900 else n

/-- The day number of the date. Numbers that are missing are ones. -/
def day? (d : WrittenDate) : Option Int :=
  let number := fun i => d.numbers.getD i 1
  let (year, month, day) := match d.month with
    | none =>
      if isDayNumber (number 0) then (number 2, number 0, number 1)
      else (number 0, number 1, number 2)
    | some month =>
      if isDayNumber (number 0) then (number 1, (month : Int), number 0)
      else (number 0, (month : Int), number 1)
  if !d.numbers.isEmpty && isMonthNumber month && isDayNumber day then
    some (dayNumber ⟨fullYear year, month.toNat, 1⟩ + (day - 1))
  else none

/-- The milliseconds of the time since the day began. Parts that are missing are zeros; the hour 24
stands only for the midnight that ends the day. -/
def time? (d : WrittenDate) : Option Int :=
  let part := fun i => d.time.getD i 0
  let hour := match d.half with
    | none => some (part 0)
    | some half => if part 0 ≤ 12 then some (part 0 % 12 + half) else none
  hour.bind fun hour =>
    let inDay := hour ≤ 23 && part 1 ≤ 59 && part 2 ≤ 59 && part 3 ≤ 999
    let atEnd := hour == 24 && part 1 == 0 && part 2 == 0 && part 3 == 0
    if inDay || atEnd then some (((hour * 60 + part 1) * 60 + part 2) * 1000 + part 3 : Nat)
    else none

/-- The seconds ahead of UTC, which fit into 31 bits. -/
def offset? (d : WrittenDate) : Option Int :=
  match d.ahead with
  | none => some 0
  | some ahead =>
    let seconds := d.zoneHour.getD 0 * 3600 + d.zoneMinute.getD 0 * 60
    if seconds < Nat.pow 2 31 then some (if ahead then seconds else -(seconds : Int)) else none

/-- The milliseconds from 1970-01-01T00:00:00Z. -/
def milliseconds? (d : WrittenDate) : Option Int := do
  return (← d.day?) * 86400000 + (← d.time?) - (← d.offset?) * 1000

end WrittenDate

end Calendar

end Wordstack
