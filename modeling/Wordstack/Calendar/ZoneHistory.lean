import Wordstack.Calendar.Date

/-!
# Histories of time zones

The offset of a time zone from UTC, in seconds, changes on days that laws have set.

- **Days** (`Calendar.YearDay`): a date of every year, or a Sunday found from one.
- **Changes** (`Calendar.ZoneChange`): a new offset, in one year or in every year of a span.
- **Histories** (`Calendar.ZoneHistory.offset`): the offset at a time is that of the latest change
  until then, and local mean time before the first one.
-/

namespace Wordstack

namespace Calendar

/-- A day that every year has. -/
inductive YearDay where
  | date (month day : Nat)
  /-- The first Sunday on a date or after it. -/
  | sundayFrom (month day : Nat)
  | lastSunday (month : Nat)

/-- The day number of the day in a year. -/
def YearDay.number (year : Int) : YearDay → Int
  | .date month day => dayNumber ⟨year, month, day⟩
  | .sundayFrom month day =>
    let date := dayNumber ⟨year, month, day⟩
    date + (7 - weekday date).fmod 7
  | .lastSunday month =>
    let last := dayNumber ⟨year, month, daysInMonth year month⟩
    last - weekday last

/-- A change of a zone's offset, once in each year from `first` to `last`. -/
structure ZoneChange where
  first : Int
  last : Option Int
  day : YearDay
  /-- When it happens, in seconds from the midnight in UTC that begins the day. -/
  second : Int
  /-- The seconds ahead of UTC from then on. -/
  offset : Int

/-- When the change happens in a year, in seconds from 1970. -/
def ZoneChange.time (c : ZoneChange) (year : Int) : Int := c.day.number year * 86400 + c.second

/-- The latest time until `t` at which the change happened. It happens within a day of its year, so
the years around that of `t` are enough. -/
def ZoneChange.latest? (c : ZoneChange) (t : Int) : Option Int :=
  let next := (dateOfDay (t.fdiv 86400)).year + 1
  let year := (c.last.map (min next)).getD next
  (([year, year - 1, year - 2].filter (c.first ≤ ·)).map c.time).find? (· ≤ t)

/-- The offset of a zone before all changes, and the changes. -/
structure ZoneHistory where
  early : Int
  changes : List ZoneChange

/-- The later of two changes, each with the time at which it happened. -/
def later (a b : Int × Int) : Int × Int := if a.1 < b.1 then b else a

/-- The seconds ahead of UTC at a time in seconds from 1970. -/
def ZoneHistory.offset (z : ZoneHistory) (t : Int) : Int :=
  let past := z.changes.filterMap fun c => (c.latest? t).map fun time => (time, c.offset)
  match past with
  | [] => z.early
  | first :: rest => (rest.foldl later first).2

/-- New York: railway time since 1883, and summer time of one hour. -/
def newYork : ZoneHistory :=
  let start := fun first last day => ZoneChange.mk first last day 25200 (-14400)
  let stop := fun first last day => ZoneChange.mk first last day 21600 (-18000)
  ⟨-17762, [
    ⟨1883, some 1883, .date 11 18, 61200, -18000⟩,
    start 1918 (some 1920) (.lastSunday 3),
    stop 1918 (some 1920) (.lastSunday 10),
    start 1921 (some 1941) (.lastSunday 4),
    stop 1921 (some 1941) (.lastSunday 9),
    start 1942 (some 1942) (.date 2 9),
    stop 1945 (some 1954) (.lastSunday 9),
    start 1946 (some 1973) (.lastSunday 4),
    stop 1955 (some 2006) (.lastSunday 10),
    start 1974 (some 1974) (.date 1 6),
    start 1975 (some 1975) (.lastSunday 2),
    start 1976 (some 1986) (.lastSunday 4),
    start 1987 (some 2006) (.sundayFrom 4 1),
    start 2007 none (.sundayFrom 3 8),
    stop 2007 none (.sundayFrom 11 1)]⟩

/-- Tokyo: standard time since 1888, and four summers of summer time. -/
def tokyo : ZoneHistory :=
  let start := fun first last day => ZoneChange.mk first (some last) day (-32400) 36000
  ⟨33539, [
    ⟨1887, some 1887, .date 12 31, 54000, 32400⟩,
    start 1948 1948 (.sundayFrom 5 2),
    start 1949 1949 (.sundayFrom 4 2),
    start 1950 1951 (.sundayFrom 5 2),
    ⟨1948, some 1951, .sundayFrom 9 9, -32400, 32400⟩]⟩

/-- Auckland: half an hour less than twelve until the summer time of 1940 became the standard. -/
def auckland : ZoneHistory :=
  let start := fun first last day => ZoneChange.mk first last day (-36000) 46800
  let stop := fun first last day => ZoneChange.mk first last day (-36000) 43200
  ⟨41944, [
    ⟨1868, some 1868, .date 11 2, -41944, 41400⟩,
    ⟨1927, some 1927, .sundayFrom 11 1, -34200, 45000⟩,
    ⟨1928, some 1928, .sundayFrom 3 1, -37800, 41400⟩,
    ⟨1928, some 1933, .sundayFrom 10 8, -34200, 43200⟩,
    ⟨1929, some 1933, .sundayFrom 3 15, -36000, 41400⟩,
    ⟨1934, some 1940, .lastSunday 4, -36000, 41400⟩,
    ⟨1934, some 1940, .lastSunday 9, -34200, 43200⟩,
    start 1974 (some 1974) (.sundayFrom 11 1),
    stop 1975 (some 1975) (.lastSunday 2),
    start 1975 (some 1988) (.lastSunday 10),
    stop 1976 (some 1989) (.sundayFrom 3 1),
    start 1989 (some 1989) (.sundayFrom 10 8),
    start 1990 (some 2006) (.sundayFrom 10 1),
    stop 1990 (some 2007) (.sundayFrom 3 15),
    start 2007 none (.lastSunday 9),
    stop 2008 none (.sundayFrom 4 1)]⟩

/-- The zones with a history, by their names in lower case. All others count as UTC. -/
def zoneHistories : List (String × ZoneHistory) := [
  ("america/new_york", newYork), ("us/eastern", newYork),
  ("asia/tokyo", tokyo), ("japan", tokyo),
  ("pacific/auckland", auckland), ("nz", auckland), ("antarctica/mcmurdo", auckland),
  ("antarctica/south_pole", auckland)]

end Calendar

end Wordstack
