import Wordstack.Source.Token
import Wordstack.Fault.Basic

/-!
# Scanning source text

- **Places** (`Place`): line, column and position, moved on over characters.
- **Scanners** (`Scanner`): the text still to be read and the place reached.
- **Next token** (`Scanner.next`): the token or the fault, and the scanner after it.
- **All tokens** (`Scanner.tokens`, `tokenize`): up to the end of the source or the first fault.
- **Entities** (`unescape`): a source has its `&lt;` and then its `&gt;` replaced before it is
  scanned.
-/

namespace Wordstack

/-- Replaces every `&` name `;` by a character, `name` being two letters. -/
def replaceEntity (a b : Char) (out : Char) : List Char → List Char
  | [] => []
  | '&' :: x :: y :: ';' :: rest =>
    if x == a && y == b then out :: replaceEntity a b out rest
    else '&' :: replaceEntity a b out (x :: y :: ';' :: rest)
  | c :: rest => c :: replaceEntity a b out rest

/-- Replaces `&lt;` and then `&gt;`. -/
def unescape (cs : List Char) : List Char :=
  replaceEntity 'g' 't' '>' (replaceEntity 'l' 't' '<' cs)

/-- A place in a text. -/
structure Place where
  line : Int
  column : Int
  position : Int
deriving DecidableEq

/-- The place after one character. -/
def Place.step (p : Place) (c : Char) : Place :=
  if c == '\n' then ⟨p.line + 1, 1, p.position + 1⟩
  else ⟨p.line, p.column + Text.width c, p.position + Text.width c⟩

/-- The place after some characters. -/
def Place.after (p : Place) (cs : List Char) : Place := cs.foldl Place.step p

/-- A source text being read. -/
structure Scanner where
  /-- The whole text, entities replaced. -/
  input : String
  source : Option String
  rest : List Char
  place : Place

namespace Scanner

/-- A scanner at the start of a text whose first character stands at `origin`. -/
def start (text : String) (origin : Location) : Scanner :=
  let cs := unescape text.toList
  ⟨String.ofList cs, origin.source, cs, ⟨origin.line, origin.column, origin.startPos⟩⟩

/-- The location of a text that starts at a place. -/
def locate (s : Scanner) (p : Place) (text : List Char) : Location :=
  ⟨s.source, p.line, p.column, p.position, p.position + Text.units text⟩

/-- The location of the place reached. -/
def location (s : Scanner) : Location := s.locate s.place []

/-- The scanner after reading characters and leaving `rest`. -/
def after (s : Scanner) (read rest : List Char) : Scanner :=
  { s with rest := rest, place := s.place.after read }

/-- The next token, or why there is none, and the scanner after it. At the end of the source the
next token is always the end. -/
def next (s : Scanner) : Except Fault Token × Scanner :=
  match lex s.rest with
  | .ok (l, rest) =>
    let text := l.text
    (.ok ⟨l.kind, String.ofList text, s.locate (s.place.after l.lead) text⟩, s.after l.chars rest)
  | .error (.unterminated lead opener text) =>
    (.error (.unterminatedString s.input (some (s.locate (s.place.after lead) text))),
      s.after (lead ++ opener ++ text) [])
  | .error (.badName read note) =>
    let s' := s.after read (s.rest.drop read.length)
    (.error (.invalidWordName s.input note (some s'.location)), s')

/-- The outcome of reading all tokens: those before the end or the first fault, the end-of-source
token or the fault, and the scanner at that point. -/
structure Tokens where
  tokens : List Token
  stop : Except Fault Token
  scanner : Scanner

/-- Reads at most `bound` tokens. -/
def tokensWithin (bound : Nat) (s : Scanner) : Tokens :=
  match bound with
  | 0 => ⟨[], s.next.1, s⟩
  | bound + 1 =>
    match s.next with
    | (.error f, s') => ⟨[], .error f, s'⟩
    | (.ok t, s') =>
      if t.kind = .eos then ⟨[], .ok t, s'⟩
      else
        let r := tokensWithin bound s'
        { r with tokens := t :: r.tokens }

/-- All tokens from here on. Every token but the last takes a character at least. -/
def tokens (s : Scanner) : Tokens := s.tokensWithin (s.rest.length + 1)

end Scanner

/-- The tokens of a source without its end, or the first fault. -/
def tokenize (text : String) (origin : Location) : Except Fault (List Token) :=
  let r := (Scanner.start text origin).tokens
  match r.stop with
  | .ok _ => .ok r.tokens
  | .error f => .error f

end Wordstack
