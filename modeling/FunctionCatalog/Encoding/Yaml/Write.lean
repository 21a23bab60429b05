import FunctionCatalog.Encoding.Yaml.Cursor
import FunctionCatalog.Encoding.Yaml.Plain
import FunctionCatalog.Text.Quoted

/-
  FunctionCatalog: writing YAML.
  A list of texts is a block sequence. Each text is plain where that reads back as the text, else in
  single quotes, else in double quotes; lines are folded at a space beyond column 80, and the folded
  lines are indented by two.
-/

namespace FunctionCatalog.Yaml

/-- Lines are folded beyond this column. -/
def bestWidth : Nat := 80

/-- What matters of a text for the choice of its style. -/
structure Traits where
  indicators : Bool := false
  breaks : Bool := false
  special : Bool := false
  spaceBreak : Bool := false
  breakSpace : Bool := false

/-- A leading character that means something else at the start of a scalar. -/
def isLeadIndicator (c : Char) : Bool :=
  "#,[]\x7b\x7d&*!|>'\"%@\x60".toList.contains c

/-- Whether the character at the front of `cs`, with `before` ahead of it, cannot stand in a plain
scalar because it would be read as an indicator. -/
def indicates (before : Option Char) (c : Char) (cs : List Char) : Bool :=
  match before with
  | none => isLeadIndicator c || ((c == '?' || c == ':' || c == '-') && endsWord cs)
  | some b => (c == ':' && endsWord cs) || (c == '#' && endsWord [b])

/-- A character that only double quotes can hold. -/
def isSpecial (c : Char) : Bool :=
  !(c == '\n' || (' ' ≤ c && c ≤ '~'))

def traitsFrom (t : Traits) (before : Option Char) : List Char → Traits
  | [] => t
  | c :: cs =>
    let afterSpace := before == some ' '
    let afterBreak := match before with
      | some b => isBreak b
      | none => false
    traitsFrom
      { indicators := t.indicators || indicates before c cs
        breaks := t.breaks || isBreak c
        special := t.special || isSpecial c
        spaceBreak := t.spaceBreak || (afterSpace && isBreak c)
        breakSpace := t.breakSpace || (afterBreak && c == ' ') } (some c) cs

inductive Style where
  | plain
  | single
  | double
deriving DecidableEq, Repr

/-- White space that does not survive at either end of a plain scalar. -/
def isEdge (c : Char) : Bool :=
  c == ' ' || isBreak c

/-- The style of a text in a block sequence. -/
def styleOf (s : String) : Style :=
  let cs := s.toList
  let marker := "---".toList.isPrefixOf cs || "...".toList.isPrefixOf cs
  let t := traitsFrom { indicators := marker } none cs
  let edge := (cs.head?.map isEdge).getD false || (cs.getLast?.map isEdge).getD false
  if !edge && !t.breakSpace && !t.spaceBreak && !t.special && !t.breaks && !t.indicators &&
      isPlainText s then .plain
  else if !t.breakSpace && !t.spaceBreak && !t.special then .single
  else .double

/-- The lines written so far, and the column at which the last one ends. -/
structure Pen where
  written : List Char
  column : Nat

namespace Pen

def put (p : Pen) (cs : List Char) : Pen :=
  ⟨p.written ++ cs, p.column + cs.length⟩

def newLine (p : Pen) : Pen :=
  ⟨p.written ++ ['\n'], 0⟩

/-- Ends a line and starts a folded one. -/
def fold (p : Pen) : Pen :=
  (⟨p.written ++ ['\n'], 0⟩ : Pen).put [' ', ' ']

end Pen

/-- The runs of spaces, of line breaks and of other characters, in order. -/
def runs : List Char → List (List Char)
  | [] => []
  | c :: cs =>
    let kind (d : Char) : Nat := if d = ' ' then 0 else if isBreak d then 1 else 2
    match runs cs with
    | (d :: run) :: rest =>
      if kind c = kind d then (c :: d :: run) :: rest else [c] :: (d :: run) :: rest
    | rest => [c] :: rest

/-- Whether a run is a single space at which a line may be folded. -/
def isFold (p : Pen) (run : List Char) : Bool :=
  run == [' '] && bestWidth < p.column

def writePlain (p : Pen) (cs : List Char) : Pen :=
  (runs cs).foldl (fun p run => if isFold p run then p.fold else p.put run) (p.put [' '])

/-- Line breaks inside single quotes: a line feed is written twice where it leads, and a folded line
follows. -/
def writeBreaks (p : Pen) (run : List Char) : Pen :=
  let p := if run.head? = some '\n' then p.newLine else p
  (run.foldl (fun (p : Pen) c => ⟨p.written ++ [c], 0⟩) p).put [' ', ' ']

/-- The runs of a text in single quotes. A space is folded only between other characters. -/
def writeSingleRuns (first : Bool) (p : Pen) : List (List Char) → Pen
  | [] => p
  | run :: rest =>
    let p :=
      if (run.head?.map isBreak).getD false then writeBreaks p run
      else if isFold p run && !first && !rest.isEmpty then p.fold
      else p.put (run.flatMap (fun c => if c = '\x27' then [c, c] else [c]))
    writeSingleRuns false p rest

def writeSingle (p : Pen) (cs : List Char) : Pen :=
  (writeSingleRuns true (p.put [' ', '\x27']) (runs cs)).put ['\x27']

/-- The escapes of double quotes that have a letter. -/
def escapeLetter? (c : Char) : Option Char :=
  ([('\x00', '0'), ('\x07', 'a'), ('\x08', 'b'), ('\t', 't'), ('\n', 'n'), ('\x0b', 'v'),
    ('\x0c', 'f'), ('\r', 'r'), ('\x1b', 'e'), ('"', '"'), ('\\', '\\'), ('\x85', 'N'),
    ('\xa0', '_'), ('\u2028', 'L'), ('\u2029', 'P')] : List (Char × Char)).lookup c

/-- The code of a character in capital hexadecimal digits. -/
def capitalHex (width n : Nat) : List Char :=
  (Text.hexDigits width n).map Char.toUpper

def escapeDouble (c : Char) : List Char :=
  match escapeLetter? c with
  | some l => ['\\', l]
  | none =>
    if c.toNat < 0x100 then '\\' :: 'x' :: capitalHex 2 c.toNat
    else if c.toNat < 0x10000 then '\\' :: 'u' :: capitalHex 4 c.toNat
    else '\\' :: 'U' :: capitalHex 8 c.toNat

def needsEscape (c : Char) : Bool :=
  c == '"' || c == '\\' || !(' ' ≤ c && c ≤ '~')

/-- The characters of a text in double quotes from index `i` of `size` on, with those not yet
written in `waiting`. A line that grows too long ends in a backslash. -/
def writeDoubleFrom (size i : Nat) (p : Pen) (waiting : List Char) : List Char → Pen
  | [] => p.put waiting
  | c :: cs =>
    let escaped := needsEscape c
    let (p, waiting) :=
      if escaped then ((p.put waiting).put (escapeDouble c), []) else (p, waiting)
    let ahead := if escaped then bestWidth + 1 < p.column else bestWidth < p.column + waiting.length
    let long := 0 < i && i + 1 < size && (c == ' ' || escaped || waiting.isEmpty) && ahead
    let pending := if escaped then [] else [c]
    if long then
      let p := ((p.put waiting).put ['\\']).fold
      let next := if escaped then cs.head? else some c
      let p := if next = some ' ' then p.put ['\\'] else p
      writeDoubleFrom size (i + 1) p pending cs
    else writeDoubleFrom size (i + 1) p (waiting ++ pending) cs

def writeDouble (p : Pen) (cs : List Char) : Pen :=
  (writeDoubleFrom cs.length 0 (p.put [' ', '"']) [] cs).put ['"']

/-- One item of a block sequence. -/
def writeItem (s : String) : List Char :=
  let p : Pen := ⟨['-'], 1⟩
  let cs := s.toList
  let p := match styleOf s with
    | .plain => writePlain p cs
    | .single => writeSingle p cs
    | .double => writeDouble p cs
  p.written ++ ['\n']

/-- A list of texts as a document. -/
def writeTexts (texts : List String) : String :=
  if texts.isEmpty then "[]\n" else String.ofList (texts.flatMap writeItem)

end FunctionCatalog.Yaml
