import Wordstack.Fault.Basic
import Wordstack.Json.Basic
import Wordstack.Text.Path
import Wordstack.Text.Quoted

/-!
# Files

- **Reading** (`Reading`): what a computation does that looks at files, as a tree: it ends with a
  result or a fault, or it asks what is at a path (`FileState`) and goes on with the answer. It is a
  monad; `Reading.attempt` catches faults.
- **Texts** (`Reading.text`): what is no readable file is a fault.
- **Runs** (`Reading.run`): on a given view of all paths.
- **Files in memory** (`FileTree`): a directory given by the texts of its files, each under a path
  relative to it. The directories on these paths exist as well, and so do those around it, of which
  nothing else is known.
-/

namespace Wordstack

/-! ## Reading -/

/-- What is at a path. -/
inductive FileState where
  | absent
  /-- A part of the path before its end is a file. -/
  | blocked
  /-- The path, or a part of it that would be looked up, is longer than a file system allows. -/
  | tooLong
  | directory
  | text (s : String)

namespace FileState

/-- Whether there is anything. -/
def exists? : FileState → Bool
  | absent | blocked | tooLong => false
  | directory | text _ => true

end FileState

/-- A computation that looks at files. -/
inductive Reading (α : Type) where
  | done (a : α)
  | fail (f : Fault)
  | look (path : String) (next : FileState → Reading α)

namespace Reading

/-- Goes on with the result of `x`. -/
def bind {α β : Type} (x : Reading α) (f : α → Reading β) : Reading β :=
  match x with
  | done a => f a
  | fail e => fail e
  | look path next => look path fun r => (next r).bind f

instance : Monad Reading where
  pure := done
  bind := bind

/-- Turns a fault into a value. -/
def attempt {α : Type} : Reading α → Reading (Except Fault α)
  | done a => done (.ok a)
  | fail f => done (.error f)
  | look path next => look path fun r => (next r).attempt

/-- The value of an outcome, or its fault. -/
def lift {α : Type} : Except Fault α → Reading α
  | .ok a => done a
  | .error f => fail f

/-- What is at a path. -/
def state (path : String) : Reading FileState := look path done

/-- Why no file can have a path. -/
def nullInPath (path : String) : Fault :=
  .typeError ("The argument 'path' must be a string, Uint8Array, or URL without null bytes. " ++
    "Received " ++ Text.excerpt 128 (Text.quoteBriefly path))

/-- The text of a file. -/
def text (path : String) : Reading String := do
  if path.toList.contains '\x00' then fail (nullInPath path) else
  match ← state path with
  | .text s => return s
  | .directory => fail (.error "EISDIR: illegal operation on a directory, read")
  | .absent => fail (.error ("ENOENT: no such file or directory, open '" ++ path ++ "'"))
  | .blocked => fail (.error ("ENOTDIR: not a directory, open '" ++ path ++ "'"))
  | .tooLong => fail (.error ("ENAMETOOLONG: name too long, open '" ++ path ++ "'"))

/-- The outcome on a view of all paths. -/
def run {α : Type} (files : String → FileState) : Reading α → Except Fault α
  | done a => .ok a
  | fail f => .error f
  | look path next => (next (files path)).run files

end Reading

/-! ## Files in memory -/

/-- The files of a directory with their paths. -/
abbrev FileTree := List (String × String)

namespace FileTree

/-- The parts of a path. -/
def parts (path : String) : List String := Path.simplify false (Text.splitAt '/' path)

/-- What is at a place given by parts. -/
def at? (files : FileTree) (place : List String) : FileState :=
  if place.isEmpty then .directory
  else
    match files.reverse.find? fun e => parts e.1 == place with
    | some e => .text e.2
    | none => if files.any fun e => place.isPrefixOf (parts e.1) then .directory else .absent

/-- The bytes that the name of a file can have at most, and those of a path. -/
def nameLimit : Nat := 255
def pathLimit : Nat := 4095

/-- Follows the parts of a path that has left the directory. -/
def followOutside : List String → FileState
  | [] => .directory
  | part :: rest =>
    if part.isEmpty || part == "." || part == ".." then followOutside rest
    else if nameLimit < part.utf8ByteSize then .tooLong
    else .absent

/-- Follows the parts of a path from a directory; each but the last must lead to a directory. -/
def follow (files : FileTree) (place : List String) : List String → FileState
  | [] => at? files place
  | part :: rest =>
    match at? files place with
    | .directory =>
      if part.isEmpty || part == "." then follow files place rest
      else if part == ".." then
        if place.isEmpty then followOutside rest else follow files place.dropLast rest
      else if nameLimit < part.utf8ByteSize then .tooLong
      else follow files (place ++ [part]) rest
    | .text _ => .blocked
    | other => other

/-- What is at a path. -/
def state (files : FileTree) (path : String) : FileState :=
  if path.isEmpty || path.toList.contains '\x00' then .absent
  else if pathLimit < path.utf8ByteSize then .tooLong
  else
    let parts := Text.splitAt '/' path
    if Path.isAbsolute path then followOutside parts else follow files [] parts

end FileTree

end Wordstack
