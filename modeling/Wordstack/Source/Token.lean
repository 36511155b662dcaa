import Wordstack.Source.Location
import Wordstack.Text.Basic

/-!
# Tokens and lexemes

- **Tokens** (`Token`): kind, text and location.
- **Lexemes** (`Lexeme`): the characters a token is read from, in the parts they play. What stands
  before the start of the token is its lead: the gap, and for a definition also its opener.
- **Reading** (`lex`): the first lexeme of a text and the text after it.
- **Characters of a lexeme** (`Lexeme.chars`): all that is read, in order.
-/

namespace Wordstack

/-- The kinds of tokens. -/
inductive TokenKind where
  | word
  | str
  | comment
  | startArray
  | endArray
  | startModule
  | endModule
  | startDef
  | startMemo
  | endDef
  | dotSymbol
  | eos
deriving DecidableEq

/-- A token. The text is a word's name, a string's contents, the name after an opener or a symbol
without its dot. -/
structure Token where
  kind : TokenKind
  text : String
  location : Location
deriving DecidableEq

/-- Characters between tokens: blanks, parentheses and commas. -/
def isGap (c : Char) : Bool :=
  c == ' ' || c == '\t' || c == '\n' || c == '\r' || c == '(' || c == ')' || c == ','

/-- The three characters that delimit strings. -/
def quoteMarks : List Char := ['\x22', '\x27', '^']

/-- Whether a character delimits strings. -/
def isQuote (c : Char) : Bool := quoteMarks.contains c

/-- Brackets, which no definition name has. -/
def isNameBracket (c : Char) : Bool := c == '[' || c == ']' || c == '{' || c == '}'

/-- Characters that end a word without being part of a gap. -/
def isTerminator (c : Char) : Bool := isNameBracket c || c == ';' || c == '#'

/-- The parts of the characters that a token is read from. -/
structure Lexeme where
  kind : TokenKind
  lead : List Char
  opener : List Char
  text : List Char
  closer : List Char
deriving DecidableEq

/-- The characters of a lexeme. -/
def Lexeme.chars (l : Lexeme) : List Char := l.lead ++ l.opener ++ l.text ++ l.closer

/-- Why no lexeme can be read. -/
inductive LexFault where
  /-- A string without its end. -/
  | unterminated (lead opener text : List Char)
  /-- A definition name that cannot be, noticed after the characters read. -/
  | badName (read : List Char) (note : String)

/-- The text of a word or symbol, what is left after it and, if it is followed by a character of a
gap, that character. -/
def lexBare (cs : List Char) : List Char × List Char × List Char :=
  let text := cs.takeWhile fun c => !isGap c && !isTerminator c
  match cs.dropWhile fun c => !isGap c && !isTerminator c with
  | c :: rest => if isGap c then (text, [c], rest) else (text, [], c :: rest)
  | [] => (text, [], [])

/-- The name of a module after its brace, in the parts of `lexBare`. -/
def lexModuleName (cs : List Char) : List Char × List Char × List Char :=
  let text := cs.takeWhile fun c => !isGap c && c != '}'
  match cs.dropWhile fun c => !isGap c && c != '}' with
  | c :: rest => if isGap c then (text, [c], rest) else (text, [], c :: rest)
  | [] => (text, [], [])

/-- The text of a string up to its quote, and what follows the quote. -/
def lexQuoted (q : Char) (cs : List Char) : Option (List Char × List Char) :=
  match cs.dropWhile (· != q) with
  | _ :: rest => some (cs.takeWhile (· != q), rest)
  | [] => none

/-- The text of a string up to three quotes that no fourth one follows, and what follows them. -/
def lexTripleQuoted (q : Char) : List Char → Option (List Char × List Char)
  | [] => none
  | a :: cs =>
    if a == q then
      match cs with
      | b :: c :: rest =>
        if b == q && c == q && rest.head? != some q then some ([], rest)
        else (lexTripleQuoted q cs).map fun r => (a :: r.1, r.2)
      | _ => (lexTripleQuoted q cs).map fun r => (a :: r.1, r.2)
    else (lexTripleQuoted q cs).map fun r => (a :: r.1, r.2)

/-- The name of a definition after its opener. -/
def lexDefinition (kind : TokenKind) (noun : String) (lead cs : List Char) :
    Except LexFault (Lexeme × List Char) :=
  let lead := lead ++ cs.takeWhile isGap
  let cs := cs.dropWhile isGap
  let isName := fun c => !isGap c && !isQuote c && !isNameBracket c
  let name := cs.takeWhile isName
  if cs.isEmpty then .error (.badName lead ("Got EOS in " ++ noun.toLower ++ " name"))
  else match cs.dropWhile isName with
    | [] => .ok (⟨kind, lead, [], name, []⟩, [])
    | c :: rest =>
      if isGap c then .ok (⟨kind, lead, [], name, []⟩, c :: rest)
      else if isQuote c then
        .error (.badName (lead ++ name) (noun ++ " names can't have quotes in them"))
      else
        .error (.badName (lead ++ name)
          (noun ++ " names can't have '" ++ String.singleton c ++ "' in them"))

/-- A string after its opening quote `q`, which is followed by `rest`. -/
def lexString (gap : List Char) (q : Char) (rest : List Char) :
    Except LexFault (Lexeme × List Char) :=
  match rest with
  | b :: c :: body =>
    if b == q && c == q then
      match lexTripleQuoted q body with
      | some (text, rest) => .ok (⟨.str, gap, [q, q, q], text, [q, q, q]⟩, rest)
      | none => .error (.unterminated gap [q, q, q] body)
    else match lexQuoted q (b :: c :: body) with
      | some (text, rest) => .ok (⟨.str, gap, [q], text, [q]⟩, rest)
      | none => .error (.unterminated gap [q] (b :: c :: body))
  | _ =>
    match lexQuoted q rest with
    | some (text, rest) => .ok (⟨.str, gap, [q], text, [q]⟩, rest)
    | none => .error (.unterminated gap [q] rest)

/-- The first lexeme of a text, and the text after it. -/
def lex (cs : List Char) : Except LexFault (Lexeme × List Char) :=
  let gap := cs.takeWhile isGap
  match cs.dropWhile isGap with
  | [] => .ok (⟨.eos, gap, [], [], []⟩, [])
  | c :: rest =>
    if c == '#' then
      .ok (⟨.comment, gap, [c], rest.takeWhile (· != '\n'), []⟩, rest.dropWhile (· != '\n'))
    else if c == ':' then lexDefinition .startDef "Definition" (gap ++ [c]) rest
    else if c == '@' && rest.head? == some ':' then
      lexDefinition .startMemo "Memo" (gap ++ [c, ':']) (rest.drop 1)
    else if c == ';' then .ok (⟨.endDef, gap, [], [c], []⟩, rest)
    else if c == '[' then .ok (⟨.startArray, gap, [], [c], []⟩, rest)
    else if c == ']' then .ok (⟨.endArray, gap, [], [c], []⟩, rest)
    else if c == '}' then .ok (⟨.endModule, gap, [], [c], []⟩, rest)
    else if c == '{' then
      let (name, closer, rest) := lexModuleName rest
      .ok (⟨.startModule, gap, [c], name, closer⟩, rest)
    else if isQuote c then lexString gap c rest
    else if c == '.' then
      let (name, closer, rest) := lexBare rest
      if name.isEmpty then .ok (⟨.word, gap, [], [c], closer⟩, rest)
      else .ok (⟨.dotSymbol, gap, [c], name, closer⟩, rest)
    else
      let (name, closer, rest) := lexBare (c :: rest)
      .ok (⟨.word, gap, [], name, closer⟩, rest)

end Wordstack
