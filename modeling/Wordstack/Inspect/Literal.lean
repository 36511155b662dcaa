import Wordstack.Fault.Basic
import Wordstack.Source.Literal

/-!
# Readings of literals

`Inspect.readings` shows what each standard reader makes of a text. The zone and the time are taken
on trust until a wildcard asks for today's date.
-/

namespace Wordstack.Inspect

/-- Today's date needs a zone that exists and a time. -/
def checkToday (zone : String) (now : Option Int) : Except Fault Unit :=
  if !Calendar.isZone zone then
    .error (.host "RangeError" ("Invalid time zone specified: " ++ zone))
  else if now.isNone then .error (.host "RangeError" "Invalid time value")
  else .ok ()

/-- What each standard reader makes of a text. -/
def readings (zone : String) (now : Option Int) (text : String) :
    Except Fault (List (Option Val)) := do
  if Literal.usesToday text then checkToday zone now
  return (Literal.standard zone (now.getD 0)).map fun reader => reader text

end Wordstack.Inspect
