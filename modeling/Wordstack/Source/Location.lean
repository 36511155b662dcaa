/-!
# Source locations

A location says where a piece of source text stands: line and column counted from one, and the
span of positions counted from zero, both in 16-bit units.
-/

namespace Wordstack

/-- Where a piece of source text stands. -/
structure Location where
  /-- What the text belongs to: a module or a file. -/
  source : Option String
  line : Int
  column : Int
  startPos : Int
  endPos : Int
deriving DecidableEq

namespace Location

/-- Where a text without a place of its own begins. -/
def origin : Location := ⟨none, 1, 1, 0, 0⟩

/-- The location as `source:line:column`. -/
def toText (l : Location) : String :=
  l.source.getD "<input>" ++ ":" ++ toString l.line ++ ":" ++ toString l.column

end Location

end Wordstack
