/-
  FunctionCatalog: places in a YAML text.
  A cursor holds what is left of a text and where that starts. `Cursor.moveTo` moves on to a later
  rest.
-/

namespace FunctionCatalog.Yaml

/-- A line break beside the carriage return. -/
def isBreak (c : Char) : Bool :=
  c == '\n' || c == '\x85' || c == '\u2028' || c == '\u2029'

/-- The end of the text or of a line. -/
def endsLine : List Char → Bool
  | [] => true
  | c :: _ => c == '\r' || isBreak c

/-- What ends a word: white space, a line break or the end of the text. -/
def endsWord : List Char → Bool
  | [] => true
  | c :: _ => c == ' ' || c == '\t' || c == '\r' || c == '\x00' || isBreak c

/-- One line break at the front of a text, as the character it counts as, and what follows it. -/
def lineBreak? : List Char → Option (Char × List Char)
  | '\r' :: '\n' :: cs => some ('\n', cs)
  | c :: cs =>
    if c = '\r' || c = '\n' || c = '\x85' then some ('\n', cs)
    else if isBreak c then some (c, cs)
    else none
  | [] => none

/-- A line that starts or ends a document. -/
def isDocumentMark (cs : List Char) : Bool :=
  let mark := cs.take 3
  (mark == ['-', '-', '-'] || mark == ['.', '.', '.']) && endsWord (cs.drop 3)

/-- A letter, a digit or one of the two marks that may stand in names of anchors and the like. -/
def isWordChar (c : Char) : Bool :=
  c.isAlphanum || c == '-' || c == '_'

/-- What is left of a text, how many characters and lines came before it, and its column. -/
structure Cursor where
  rest : List Char
  index : Nat := 0
  line : Nat := 0
  column : Nat := 0

namespace Cursor

/-- Moves over one character. A carriage return ahead of a line feed is no break by itself, and a
byte order mark has no width. -/
def step (c : Cursor) : Cursor :=
  match c.rest with
  | [] => c
  | ch :: rest =>
    if isBreak ch || (ch == '\r' && rest.head? != some '\n') then
      ⟨rest, c.index + 1, c.line + 1, 0⟩
    else ⟨rest, c.index + 1, c.line, if ch = '\ufeff' then c.column else c.column + 1⟩

/-- Moves over a number of characters. -/
def advance : Nat → Cursor → Cursor
  | 0, c => c
  | n + 1, c => advance n c.step

/-- Moves on to a later rest of the text. -/
def moveTo (rest : List Char) (c : Cursor) : Cursor :=
  c.advance (c.rest.length - rest.length)

/-- A document mark at the start of a line. -/
def atMark (c : Cursor) : Bool :=
  c.column == 0 && isDocumentMark c.rest

end Cursor

/-- Drops spaces. -/
def dropSpaces (cs : List Char) : List Char :=
  cs.dropWhile (· == ' ')

/-- Drops a comment to the end of its line. -/
def dropComment (cs : List Char) : List Char :=
  match cs with
  | '#' :: _ => cs.dropWhile (fun c => !endsLine [c])
  | cs => cs

/-- Drops spaces, comments and line breaks. -/
def dropBlank : List Char → List Char :=
  go false
where
  /-- In a comment or not. -/
  go (inComment : Bool) : List Char → List Char
    | [] => []
    | c :: cs =>
      if endsLine [c] then go false cs
      else if inComment then go true cs
      else if c = ' ' then go false cs
      else if c = '#' then go true cs
      else c :: cs

end FunctionCatalog.Yaml
