import Wordstack.Text.Basic

/-!
# Paths

Paths with slashes between their parts.

- **Parts** (`Path.directory`, `Path.ending`): where a file is, and its name from the last dot on.
- **Joining** (`Path.join`): one path after another, in normal form: no empty part, no `.`, and `..`
  only at the start of a relative path.
-/

namespace Wordstack

namespace Path

/-- Whether a path starts at the root. -/
def isAbsolute (p : String) : Bool := Text.startsWith p "/"

/-- The characters without the slashes at their end. -/
def dropSlashes (cs : List Char) : List Char := (cs.reverse.dropWhile (· == '/')).reverse

/-- The part after the last slash, slashes at the end not counted. -/
def fileName (p : String) : List Char :=
  ((dropSlashes p.toList).reverse.takeWhile (· != '/')).reverse

/-- The path of the directory that holds a file; `.` when the path has one part. -/
def directory (p : String) : String :=
  let cs := dropSlashes p.toList
  let before := (cs.reverse.dropWhile (· != '/')).reverse
  if before.isEmpty then (if isAbsolute p then "/" else ".")
  else
    let parent := dropSlashes before
    if parent.isEmpty then "/" else String.ofList parent

/-- The end of the file name from its last dot on, empty when there is none behind the first
character. -/
def ending (p : String) : String :=
  let name := fileName p
  let tail := name.reverse.takeWhile (· != '.')
  if name == ['.', '.'] || name.length ≤ tail.length + 1 then ""
  else String.ofList ('.' :: tail.reverse)

/-- The parts that are left after each `..` took away the one before it. -/
def simplify (absolute : Bool) (parts : List String) : List String :=
  (parts.foldl (fun acc part =>
    if part.isEmpty || part == "." then acc
    else if part == ".." then
      match acc with
      | last :: rest => if last == ".." then part :: acc else rest
      | [] => if absolute then [] else [part]
    else part :: acc) []).reverse

/-- The normal form of a path. -/
def normalize (p : String) : String :=
  let absolute := isAbsolute p
  let body := Text.join "/" (simplify absolute (Text.splitAt '/' p))
  let body := if Text.endsWith p "/" && !body.isEmpty then body ++ "/" else body
  if absolute then "/" ++ body
  else if !body.isEmpty then body
  else if Text.endsWith p "/" then "./" else "."

/-- A path inside a directory. -/
def join (dir p : String) : String :=
  let parts := [dir, p].filter fun s => !s.isEmpty
  if parts.isEmpty then "." else normalize (Text.join "/" parts)

end Path

end Wordstack
