import Wordstack.Text.Basic
import Wordstack.Text.Percent

/-!
# Targets of requests

What a request asks for is a path with an optional query, or a whole address with a scheme and a
host before them.

- **Outcome** (`Target`): the path, no path at all, or an address that is not well formed.
- **Addresses** (`Target.ofAddress`): backslashes count as slashes, and characters that no path may
  hold are escaped. A host ends at the first character that no host has.
- **Reading** (`Target.read`): a target that starts with a slash and holds neither blanks nor a
  fragment has its path as it stands.
-/

namespace Wordstack

namespace Http

/-- What a request asks for. -/
inductive Target where
  | path (p : String)
  | nowhere
  | malformed
deriving DecidableEq

namespace Target

/-! ## Parts of addresses -/

/-- Controls and blanks that do not count at the ends of an address. -/
def isEdge (c : Char) : Bool := c.toNat < 33 || c.toNat == 0xA0 || c.toNat == 0xFEFF

/-- The characters without those at the ends that do not count. -/
def trimEdges (cs : List Char) : List Char :=
  ((cs.dropWhile isEdge).reverse.dropWhile isEdge).reverse

/-- Whether a query or a fragment begins here. -/
def endsPath (c : Char) : Bool := c == '?' || c == '#'

/-- Slashes in place of backslashes, as far as the path goes. -/
def turnSlashes (cs : List Char) : List Char :=
  (cs.takeWhile fun c => !endsPath c).map (fun c => if c == '\\' then '/' else c) ++
    cs.dropWhile fun c => !endsPath c

/-- The path of a target that is nothing but a path and a query without blanks. -/
def plainPath? (cs : List Char) : Option (List Char) :=
  let start := cs.take 1 == ['/'] && cs.take 3 != ['/', '/', '/']
  let path := cs.takeWhile (· != '?')
  if start && !cs.any Text.isBlank then some path else none

/-- The scheme with its colon at the start of an address, and what follows it. -/
def splitScheme (cs : List Char) : List Char × List Char :=
  let isPart := fun (c : Char) => c.isAlphanum || c == '.' || c == '+' || c == '-'
  match cs.takeWhile isPart, cs.dropWhile isPart with
  | c :: name, ':' :: rest => (c :: name ++ [':'], rest)
  | _, _ => ([], cs)

/-- The schemes whose addresses always have a host and a path. -/
def hostSchemes : List String :=
  ["http:", "https:", "ftp:", "gopher:", "file:", "ws:", "wss:"]

/-- The scheme whose addresses are source code. -/
def codeScheme : String := "javascript:"

/-- Whether an address without a scheme begins with slashes, a user and a host. -/
def hasUser : List Char → Bool
  | '/' :: '/' :: cs =>
    let isPart := fun (c : Char) => c != '@' && c != '/'
    match cs.takeWhile isPart, cs.dropWhile isPart with
    | _ :: _, '@' :: c :: _ => isPart c
    | _, _ => false
  | _ => false

/-- Characters that end a host. -/
def isNoHost (c : Char) : Bool := " \"%';<>\\^`\x7b|\x7d".toList.contains c

/-- Characters before which the host and all that belongs to it ends. -/
def endsAuthority (c : Char) : Bool := c == '/' || endsPath c

/-- The part before the last `@`, if there is one, and the part after it. -/
def splitUser (cs : List Char) : Option (List Char) × List Char :=
  let host := (cs.reverse.takeWhile (· != '@')).reverse
  if host.length < cs.length then (some (cs.take (cs.length - host.length - 1)), host)
  else (none, cs)

/-- A host without the port at its end. -/
def dropPort (cs : List Char) : List Char :=
  match cs.reverse.dropWhile Char.isDigit with
  | ':' :: rest => rest.reverse
  | _ => cs

/-- Whether a host is an address between brackets. -/
def isBracketed (cs : List Char) : Bool :=
  1 < cs.length && cs.head? == some '[' && cs.getLast? == some ']'

/-- Whether the name of a host holds a character that no name has, or nothing but marks without
width. -/
def isForbidden (name : List Char) : Bool :=
  let isMark := fun c => c == '\uFEFF'
  (!name.isEmpty && name.all isMark) || name.any fun c =>
    ['[', ']', '\x00'].contains c || (0x7F < c.toNat && Text.isBlank c && !isMark c)

/-- The units that the name of a host can have at most. -/
def hostLimit : Nat := 255

/-- The host of an address without its port and the text after it, from the text after the scheme
and the slashes. A host that is too long counts as empty. -/
def splitHost (cs : List Char) : Option (List Char × List Char) :=
  let gaps := ['\t', '\n', '\r']
  let authority := (cs.takeWhile fun c => !endsAuthority c).filter fun c => !gaps.contains c
  let tail := cs.dropWhile fun c => !endsAuthority c
  let (user, host) := splitUser authority
  let rest := host.dropWhile (fun c => !isNoHost c) ++ tail
  let host := dropPort (host.takeWhile fun c => !isNoHost c)
  if (user.map fun u => (Text.percentDecode? (String.ofList u)).isNone).getD false then none
  else if isBracketed host then
    let rest := if rest.head? == some '/' then rest else '/' :: rest
    if hostLimit < Text.units host then some ([], rest)
    else if host.contains '\x00' then none else some ((host.drop 1).dropLast, rest)
  else
    let name := host.takeWhile (· != ':')
    let rest := if name.length < host.length then '/' :: host.drop name.length ++ rest else rest
    if hostLimit < Text.units name then some ([], rest)
    else if isForbidden name then none else some (name, rest)

/-- Characters that are written as escapes in the path of an address. -/
def isEscaped (c : Char) : Bool := "\t\n\r \"'<>\\^`\x7b|\x7d".toList.contains c

/-- The text with characters that no path may hold as escapes. -/
def escapeUnsafe (cs : List Char) : List Char :=
  cs.flatMap fun c => if isEscaped c then Text.percentChar c else [c]

/-! ## Reading -/

/-- The path before a query and a fragment; `dflt` takes the place of an empty one. -/
def ofRest (dflt : Target) (cs : List Char) : Target :=
  let path := cs.takeWhile fun c => !endsPath c
  if path.isEmpty then dflt else .path (String.ofList path)

/-- What the address asks for after a scheme, which is empty where there is none. -/
def afterScheme (scheme rest : List Char) : Target :=
  let name := String.ofList scheme
  let lowered := String.ofList (scheme.map Char.toLower)
  if lowered == codeScheme then ofRest .nowhere rest
  else
    let slashes := (!scheme.isEmpty || hasUser rest) && rest.take 2 == ['/', '/']
    let rest := if slashes then rest.drop 2 else rest
    if slashes || (!scheme.isEmpty && !hostSchemes.contains name) then
      match splitHost rest with
      | none => .malformed
      | some (host, rest) =>
        let dflt := if hostSchemes.contains lowered && !host.isEmpty then .path "/" else .nowhere
        ofRest dflt (escapeUnsafe rest)
    else ofRest .nowhere (escapeUnsafe rest)

/-- What an address asks for. -/
def ofAddress (address : String) : Target :=
  let cs := turnSlashes (trimEdges address.toList)
  let noUser := !(cs.takeWhile fun c => !endsPath c).contains '@'
  let plain := if noUser && !cs.contains '#' then plainPath? cs else none
  match plain with
  | some cs => .path (String.ofList cs)
  | none =>
    let (scheme, rest) := splitScheme cs
    afterScheme scheme rest

/-- The characters for which a target is read as an address. -/
def needsAddress (c : Char) : Bool := "\t\n\x0c\r #\u00A0\uFEFF".toList.contains c

/-- What a target asks for. -/
def read (target : String) : Target :=
  let cs := target.toList
  if cs.head? == some '/' && !cs.any needsAddress then
    .path (String.ofList (cs.takeWhile (· != '?')))
  else ofAddress target

end Target

end Http

end Wordstack
