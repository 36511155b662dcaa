import Wordstack.Value.Basic

/-!
# Profiles

- **Profiles** (`Profile`): counts of words while the window is open, and timestamps with labels.
- **Window** (`Profile.start`, `Profile.stop`): starting clears what was there.
- **Results** (`Profile.histogram`, `Profile.toRecord`): the highest counts first, equal counts in
  the order in which the words were first seen; each timestamp with the time since the one before.
-/

namespace Wordstack

/-- Counts of words, and timestamps in milliseconds. -/
structure Profile where
  isOpen : Bool := false
  counts : List (String × Nat) := []
  stamps : List (String × Binary64) := []

namespace Profile

/-- Clears all data and opens the window. -/
def start (_ : Profile) : Profile := { isOpen := true }

/-- Closes the window. -/
def stop (p : Profile) : Profile := { p with isOpen := false }

/-- One more for a name; a new name goes to the end. -/
def increment (name : String) : List (String × Nat) → List (String × Nat)
  | [] => [(name, 1)]
  | (k, n) :: rest => if k == name then (k, n + 1) :: rest else (k, n) :: increment name rest

/-- Counts a word while the window is open. -/
def count (p : Profile) (name : String) : Profile :=
  if p.isOpen then { p with counts := increment name p.counts } else p

/-- Adds a timestamp. -/
def stamp (p : Profile) (label : String) (time : Binary64) : Profile :=
  { p with stamps := p.stamps ++ [(label, time)] }

/-- The counts, highest first; equal counts keep their order. -/
def histogram (p : Profile) : List (String × Nat) :=
  p.counts.mergeSort fun a b => decide (b.2 ≤ a.2)

/-- The timestamps as records, `before` being the time of the one before. -/
def stampRecords (before : Option Binary64) : List (String × Binary64) → List Val
  | [] => []
  | (label, time) :: rest =>
    let delta := match before with
      | some t => time.sub t
      | none => 0
    .record [("label", .str label), ("time_ms", .float time), ("delta", .float delta)] ::
      stampRecords (some time) rest

/-- Counts and timestamps as a record. -/
def toRecord (p : Profile) : Val :=
  .record [
    ("word_counts", .array (p.histogram.map fun c =>
      .record [("word", .str c.1), ("count", .int c.2)])),
    ("timestamps", .array (stampRecords none p.stamps))]

end Profile

end Wordstack
