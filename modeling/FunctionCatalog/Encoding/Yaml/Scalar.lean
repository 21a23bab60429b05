import FunctionCatalog.Encoding.Yaml.Cursor
import FunctionCatalog.Failure

/-
  FunctionCatalog: reading YAML scalars.
  A scalar may run over several lines; a single line break in it counts as a space, further ones
  stay. Quoted scalars have their escapes, block scalars keep their lines.
-/

namespace FunctionCatalog.Yaml

/-- Puts something that is read ahead of what is read after it. -/
def ahead (before : List Char) (r : Except DocumentFault (List Char × List Char)) :
    Except DocumentFault (List Char × List Char) :=
  r.map (fun r => (before ++ r.1, r.2))

/-- A first line break by itself is a space; otherwise only the further ones stay. -/
def foldedBreak (first : Char) (more : List Char) : List Char :=
  if first = '\n' then (if more.isEmpty then [' '] else more) else first :: more

/-- White space within a line. -/
def isInner (c : Char) : Bool :=
  c == ' ' || c == '\t'

/-- The line breaks that follow a first one, with the white space between them dropped. In a quoted
scalar no line may look like a document mark. -/
def takeBreaks : Nat → List Char → Except DocumentFault (List Char × List Char)
  | 0, _ => .error .yaml
  | budget + 1, cs =>
    if isDocumentMark cs then .error .yaml
    else
      let cs := cs.dropWhile isInner
      match lineBreak? cs with
      | none => .ok ([], cs)
      | some (b, rest) => ahead [b] (takeBreaks budget rest)

/-- White space inside a quoted scalar. -/
def takeQuotedSpace (cs : List Char) : Except DocumentFault (List Char × List Char) :=
  match lineBreak? (cs.dropWhile isInner) with
  | none => .ok (cs.takeWhile isInner, cs.dropWhile isInner)
  | some (b, rest) =>
    (takeBreaks (rest.length + 1) rest).map (fun r => (foldedBreak b r.1, r.2))

/-- Whether a quoted scalar may fold here. -/
def isFoldable (c : Char) : Bool :=
  isInner c || endsLine [c]

/-- A single-quoted scalar after its opening quote. -/
def readSingle : Nat → List Char → Except DocumentFault (List Char × List Char)
  | 0, _ => .error .yaml
  | budget + 1, cs =>
    match cs with
    | '\x27' :: '\x27' :: cs => ahead ['\x27'] (readSingle budget cs)
    | '\x27' :: cs => .ok ([], cs)
    | [] => .error .yaml
    | c :: cs =>
      if isFoldable c then do
        let (space, rest) ← takeQuotedSpace (c :: cs)
        ahead space (readSingle budget rest)
      else ahead [c] (readSingle budget cs)

/-- The character of an escape with a letter. -/
def unescapeDouble? (c : Char) : Option Char :=
  ([('0', '\x00'), ('a', '\x07'), ('b', '\x08'), ('t', '\t'), ('\t', '\t'), ('n', '\n'),
    ('v', '\x0b'), ('f', '\x0c'), ('r', '\r'), ('e', '\x1b'), (' ', ' '), ('"', '"'), ('\\', '\\'),
    ('/', '/'), ('N', '\x85'), ('_', '\xa0'), ('L', '\u2028'), ('P', '\u2029')] :
      List (Char × Char)).lookup c

/-- How many hexadecimal digits follow the letter of an escape. -/
def escapeWidth? (c : Char) : Option Nat :=
  ([('x', 2), ('u', 4), ('U', 8)] : List (Char × Nat)).lookup c

def hexDigit? (c : Char) : Option Nat :=
  if c.isDigit then some (c.toNat - 48)
  else if 'a' ≤ c && c ≤ 'f' then some (c.toNat - 87)
  else if 'A' ≤ c && c ≤ 'F' then some (c.toNat - 55)
  else none

/-- The number of a fixed number of hexadecimal digits. -/
def readHex (width : Nat) (cs : List Char) : Except DocumentFault (Nat × List Char) :=
  let digits := cs.take width
  match digits.length == width, digits.foldlM (fun n c => (hexDigit? c).map (16 * n + ·)) 0 with
  | true, some n => .ok (n, cs.drop width)
  | _, _ => .error .yaml

/-- The character of a code. There are no codes beyond those of Unicode, and none that takes more
than 31 bits can even be looked at. -/
def ofCode (n : Nat) : Except DocumentFault Char :=
  if 0x7fffffff < n then .error .overflow
  else if 0x10ffff < n then .error .scalar
  else .ok (Char.ofNat n)

/-- A double-quoted scalar after its opening quote. -/
def readDouble : Nat → List Char → Except DocumentFault (List Char × List Char)
  | 0, _ => .error .yaml
  | budget + 1, cs =>
    match cs with
    | '"' :: cs => .ok ([], cs)
    | '\\' :: e :: cs =>
      match unescapeDouble? e, escapeWidth? e, lineBreak? (e :: cs) with
      | some c, _, _ => ahead [c] (readDouble budget cs)
      | none, some width, _ => do
        let (n, rest) ← readHex width cs
        let c ← ofCode n
        ahead [c] (readDouble budget rest)
      | none, none, some (_, rest) => do
        let (breaks, rest) ← takeBreaks (rest.length + 1) rest
        ahead breaks (readDouble budget rest)
      | none, none, none => .error .yaml
    | [] => .error .yaml
    | c :: cs =>
      if c = '\\' then .error .yaml
      else if isFoldable c then do
        let (space, rest) ← takeQuotedSpace (c :: cs)
        ahead space (readDouble budget rest)
      else ahead [c] (readDouble budget cs)

/-- A character that ends a plain scalar inside a flow collection. -/
def isFlowMark (c : Char) : Bool :=
  c == ',' || c == '[' || c == ']' || c == '\x7b' || c == '\x7d'

/-- The characters of a plain scalar up to white space, or to an indicator that ends it. -/
def takeWord (flow : Bool) : List Char → List Char × List Char
  | [] => ([], [])
  | c :: cs =>
    let endsKey := endsWord cs || (flow && (cs.head?.map isFlowMark).getD false)
    let ends := endsWord [c] || (c == ':' && endsKey) || (flow && (isFlowMark c || c == '?'))
    if ends then ([], c :: cs) else (c :: (takeWord flow cs).1, (takeWord flow cs).2)

/-- Whether a plain scalar can start here. -/
def startsPlain (flow : Bool) : List Char → Bool
  | [] => false
  | c :: cs =>
    !(endsWord [c] || "-?:,[]\x7b\x7d#&*!|>'\"%@\x60".toList.contains c) ||
      (!endsWord cs && (c == '-' || (!flow && (c == '?' || c == ':'))))

/-- The space inside a plain scalar: the spaces on its line, or the fold of its line breaks. The
scalar ends before a document mark. -/
def takePlainSpace (cs : List Char) : List Char × List Char :=
  match lineBreak? (dropSpaces cs) with
  | none => (cs.takeWhile (· == ' '), dropSpaces cs)
  | some (b, rest) =>
    if isDocumentMark rest then ([], rest)
    else more b (rest.length + 1) [] rest
where
  more (first : Char) : Nat → List Char → List Char → List Char × List Char
    | 0, _, cs => ([], cs)
    | budget + 1, breaks, cs =>
      let cs := dropSpaces cs
      match lineBreak? cs with
      | none => (foldedBreak first breaks, cs)
      | some (b, rest) =>
        if isDocumentMark rest then ([], rest) else more first budget (breaks ++ [b]) rest

/-- A plain scalar that has been read: its characters, the line on which its last word ends, and the
place behind the space that follows. -/
structure PlainScalar where
  chars : List Char
  lastLine : Nat
  after : Cursor

/-- Reads a plain scalar; in a block its further lines are indented to at least the column
`margin`. -/
def readPlain (flow : Bool) (margin : Int) : Nat → List Char → PlainScalar → PlainScalar
  | 0, _, s => s
  | budget + 1, space, s =>
    let (word, rest) := takeWord flow s.after.rest
    if word.isEmpty then s
    else
      let wordEnd := s.after.moveTo rest
      let (next, rest) := takePlainSpace wordEnd.rest
      let after := wordEnd.moveTo rest
      let s : PlainScalar := ⟨s.chars ++ space ++ word, wordEnd.line, after⟩
      if next.isEmpty || after.rest.head? = some '#' ||
          (!flow && (after.column : Int) < margin) then s
      else readPlain flow margin budget next s

/-- What is kept of the line breaks at the end of a block scalar: one, none or all of them. -/
inductive Chomping where
  | clip
  | strip
  | keep
deriving DecidableEq, Repr

structure BlockHeader where
  chomping : Chomping := .clip
  /-- By how many columns the lines are indented, where it says so. -/
  indent : Option Nat := none

def chomping? : List Char → Option (Chomping × List Char)
  | '+' :: cs => some (.keep, cs)
  | '-' :: cs => some (.strip, cs)
  | _ => none

/-- The digit of an indentation, which is not zero. -/
def indentDigit? : List Char → Except DocumentFault (Option Nat × List Char)
  | [] => .ok (none, [])
  | c :: cs =>
    if c = '0' then .error .yaml
    else if c.isDigit then .ok (some (c.toNat - 48), cs)
    else .ok (none, c :: cs)

/-- The header of a block scalar, after its indicator, to the end of its line. -/
def readHeader (cs : List Char) : Except DocumentFault (BlockHeader × List Char) := do
  let (header, rest) ← match chomping? cs with
    | some (chomping, cs) => do
      let (indent, cs) ← indentDigit? cs
      pure ((⟨chomping, indent⟩ : BlockHeader), cs)
    | none => do
      let (indent, cs) ← indentDigit? cs
      match indent, chomping? cs with
      | some _, some (chomping, cs) => pure (⟨chomping, indent⟩, cs)
      | _, _ => pure (⟨.clip, indent⟩, cs)
  if endsLine rest || rest.head? = some ' ' then
    let rest := dropComment (dropSpaces rest)
    if endsLine rest then .ok (header, ((lineBreak? rest).map (·.2)).getD rest) else .error .yaml
  else .error .yaml

/-- The line breaks and leading spaces ahead of the first line, and the greatest column reached. -/
def findIndent : Nat → Nat → Cursor → List Char × Nat × Cursor
  | 0, most, c => ([], most, c)
  | budget + 1, most, c =>
    match lineBreak? c.rest with
    | some (b, rest) =>
      let (breaks, most, c) := findIndent budget most (c.moveTo rest)
      (b :: breaks, most, c)
    | none =>
      if c.rest.head? = some ' ' then
        let c := c.step
        findIndent budget (max most c.column) c
      else ([], most, c)

/-- Skips spaces up to a column. -/
def toColumn (column : Nat) : Nat → Cursor → Cursor
  | 0, c => c
  | budget + 1, c =>
    if c.column < column && c.rest.head? = some ' ' then toColumn column budget c.step else c

/-- The line breaks ahead of the next line that has something at a column. -/
def blockBreaks (column : Nat) : Nat → Cursor → List Char × Cursor
  | 0, c => ([], c)
  | budget + 1, c =>
    let c := toColumn column c.rest.length c
    match lineBreak? c.rest with
    | some (b, rest) =>
      let (breaks, c) := blockBreaks column budget (c.moveTo rest)
      (b :: breaks, c)
    | none => ([], c)

/-- The lines of a block scalar from the one at the cursor on, with the breaks that come before it.
In a folded scalar a single break between lines that start with no white space is a space. -/
def blockLines (folded : Bool) (chomping : Chomping) (column : Nat) :
    Nat → List Char → Cursor → List Char × Cursor
  | 0, _, c => ([], c)
  | budget + 1, breaks, c =>
    let line := c.rest.takeWhile (fun ch => !endsLine [ch])
    let afterLine := c.moveTo (c.rest.drop line.length)
    let (lineEnd, rest) := match lineBreak? afterLine.rest with
      | some (b, rest) => ([b], rest)
      | none => ([], afterLine.rest)
    let (further, next) := blockBreaks column (rest.length + 1) (afterLine.moveTo rest)
    let isText (cs : List Char) : Bool := !((cs.head?.map isInner).getD false)
    if next.column = column && !next.rest.isEmpty then
      let between :=
        if folded && lineEnd == ['\n'] && isText c.rest && isText next.rest then
          (if further.isEmpty then [' '] else [])
        else lineEnd
      let (more, last) := blockLines folded chomping column budget further next
      (breaks ++ line ++ between ++ more, last)
    else
      let ending := match chomping with
        | .strip => []
        | .clip => lineEnd
        | .keep => lineEnd ++ further
      (breaks ++ line ++ ending, next)

/-- A block scalar after its indicator, in a block at a column. -/
def readBlock (folded : Bool) (indent : Int) (c : Cursor) :
    Except DocumentFault (List Char × Cursor) := do
  let (header, rest) ← readHeader c.rest
  let c := c.moveTo rest
  let least := (max (indent + 1) 1).toNat
  let (breaks, column, c) := match header.indent with
    | none =>
      let (breaks, most, c) := findIndent (c.rest.length + 1) 0 c
      (breaks, max least most, c)
    | some n =>
      let column := least + n - 1
      let (breaks, c) := blockBreaks column (c.rest.length + 1) c
      (breaks, column, c)
  if c.column = column && !c.rest.isEmpty then
    .ok (blockLines folded header.chomping column (c.rest.length + 1) breaks c)
  else .ok (if header.chomping = .keep then breaks else [], c)

end FunctionCatalog.Yaml
