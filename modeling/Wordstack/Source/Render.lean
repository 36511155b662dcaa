import Wordstack.Source.Token
import Wordstack.Text.Basic

/-!
# Tokens as source text

`render` writes tokens so that reading them gives the same kinds and texts. A string takes the
first quote it does not contain, tripled if the string has several lines. If it contains all of
them it takes three of one that it neither contains tripled nor ends with.
-/

namespace Wordstack

/-- The string between `n` quotes on each side. -/
def quoted (n : Nat) (q : Char) (text : List Char) : List Char :=
  List.replicate n q ++ text ++ List.replicate n q

/-- A string in quotes. -/
def renderString (text : List Char) : List Char :=
  match quoteMarks.find? fun q => !text.contains q with
  | some q => quoted (if text.contains '\n' then 3 else 1) q text
  | none =>
    match quoteMarks.find? fun q =>
        !Text.containsChars [q, q, q] text && text.getLast? != some q with
    | some q => quoted 3 q text
    | none => quoted 3 '\x22' text

/-- A token as source text. -/
def renderToken (kind : TokenKind) (text : String) : String :=
  match kind with
  | .word => text
  | .str => String.ofList (renderString text.toList)
  | .dotSymbol => "." ++ text
  | .comment => "#" ++ text ++ "\n"
  | .startArray => "["
  | .endArray => "]"
  | .startModule => "\x7b" ++ text
  | .endModule => "\x7d"
  | .startDef => ": " ++ text
  | .startMemo => "@: " ++ text
  | .endDef => ";"
  | .eos => ""

/-- Tokens as source text with spaces between them. -/
def render (tokens : List (TokenKind × String)) : String :=
  Text.join " " ((tokens.filter fun t => t.1 != .eos).map fun t => renderToken t.1 t.2)

end Wordstack
