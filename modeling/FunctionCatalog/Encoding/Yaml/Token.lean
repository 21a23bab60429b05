import FunctionCatalog.Encoding.Yaml.Scalar

/-
  FunctionCatalog: YAML tokens.
  Tokens are what a text says about its structure: indicators, scalars, and where blocks start and
  end, which follows from the columns of what stands in them. A key is only known for one when the
  colon behind it is reached; what may be a key stays pending until then, on one line and over no
  more than 1024 characters.
-/

namespace FunctionCatalog.Yaml

inductive Directive where
  | version (major : Nat)
  | tag (handle start : String)
  | other
deriving DecidableEq, Repr

inductive Token where
  | directive (d : Directive)
  | documentStart
  | documentEnd
  | streamEnd
  | blockSequence
  | blockMapping
  | blockEnd
  | flowSequence
  | flowSequenceEnd
  | flowMapping
  | flowMappingEnd
  | flowEntry
  | blockEntry
  | key
  | value
  | alias (name : String)
  | anchor (name : String)
  | tag (handle : Option String) (rest : String)
  | scalar (isPlain : Bool) (text : String)
deriving DecidableEq, Repr

/-- Something that may turn out to be a key: its token, and where it starts. -/
structure PendingKey where
  /-- How many flow collections it stands in. -/
  level : Nat
  token : Nat
  /-- Whether nothing else can stand there. -/
  required : Bool
  place : Cursor

/-- The greatest length of a key. -/
def keyLimit : Nat := 1024

structure Lexer where
  cursor : Cursor
  tokens : List Token := []
  /-- How many flow collections are open. -/
  level : Nat := 0
  /-- The column of the innermost block, and those of the blocks around it. -/
  indent : Int := -1
  indents : List Int := []
  /-- Whether a key may start here. -/
  keyAllowed : Bool := true
  pending : List PendingKey := []

namespace Lexer

def isFlow (l : Lexer) : Bool := l.level != 0

def push (t : Token) (l : Lexer) : Lexer :=
  { l with tokens := l.tokens ++ [t] }

def insert (n : Nat) (t : Token) (l : Lexer) : Lexer :=
  { l with tokens := l.tokens.take n ++ t :: l.tokens.drop n }

def moveTo (rest : List Char) (l : Lexer) : Lexer :=
  { l with cursor := l.cursor.moveTo rest }

def advance (n : Nat) (l : Lexer) : Lexer :=
  { l with cursor := l.cursor.advance n }

def allowKey (allowed : Bool) (l : Lexer) : Lexer :=
  { l with keyAllowed := allowed }

/-- Moves to the next token. A line break outside flow collections allows a key. -/
def skipBlank (l : Lexer) : Lexer :=
  let start := if l.cursor.index = 0 && l.cursor.rest.head? = some '\ufeff' then l.advance 1 else l
  let next := start.moveTo (dropBlank start.cursor.rest)
  if next.cursor.line != start.cursor.line && !l.isFlow then next.allowKey true else next

/-- Whether a pending key has come too far to be one. -/
def isStale (l : Lexer) (k : PendingKey) : Bool :=
  k.place.line != l.cursor.line || keyLimit < l.cursor.index - k.place.index

/-- Forgets pending keys; one that is required must not be forgotten. -/
def forget (p : PendingKey → Bool) (l : Lexer) : Except DocumentFault Lexer :=
  if l.pending.any (fun k => p k && k.required) then .error .yaml
  else .ok { l with pending := l.pending.filter (fun k => !p k) }

def forgetStale (l : Lexer) : Except DocumentFault Lexer :=
  l.forget l.isStale

/-- Forgets what may be a key on the present level. -/
def forgetKey (l : Lexer) : Except DocumentFault Lexer :=
  l.forget (fun k => k.level == l.level)

/-- Notes that the next token may be a key. -/
def saveKey (l : Lexer) : Except DocumentFault Lexer :=
  if l.keyAllowed then do
    let l ← l.forgetKey
    let required := !l.isFlow && l.indent == l.cursor.column
    .ok { l with pending := ⟨l.level, l.tokens.length, required, l.cursor⟩ :: l.pending }
  else .ok l

/-- Ends the blocks that are indented more than a column. -/
def unwind (column : Int) (l : Lexer) : Lexer :=
  if l.isFlow then l else go l.indents l.indent l.tokens
where
  go (indents : List Int) (indent : Int) (tokens : List Token) : Lexer :=
    match indents with
    | outer :: rest =>
      if column < indent then go rest outer (tokens ++ [.blockEnd])
      else { l with indents := outer :: rest, indent, tokens }
    | [] => { l with indents := [], indent, tokens }

/-- Starts a block at a column, with a token at an index, unless one is open there. -/
def openBlock (column n : Nat) (t : Token) (l : Lexer) : Lexer :=
  if l.indent < column then
    { l with indents := l.indent :: l.indents, indent := column }.insert n t
  else l

/-- A token that stands for so many characters. -/
def mark (n : Nat) (t : Token) (l : Lexer) : Lexer :=
  (l.advance n).push t

/-- Ends everything that is open, for what stands outside of documents. -/
def close (l : Lexer) : Except DocumentFault Lexer := do
  let l ← (l.unwind (-1)).forgetKey
  .ok (l.allowKey false)

def documentMark (t : Token) (l : Lexer) : Except DocumentFault Lexer := do
  .ok ((← l.close).mark 3 t)

def flowStart (t : Token) (l : Lexer) : Except DocumentFault Lexer := do
  let l ← l.saveKey
  .ok (({ l with level := l.level + 1 }.allowKey true).mark 1 t)

def flowEnd (t : Token) (l : Lexer) : Except DocumentFault Lexer := do
  let l ← l.forgetKey
  .ok (({ l with level := l.level - 1 }.allowKey false).mark 1 t)

def flowEntry (l : Lexer) : Except DocumentFault Lexer := do
  .ok ((← l.forgetKey).allowKey true |>.mark 1 .flowEntry)

/-- What may open a block where it stands. -/
def openHere (t : Token) (l : Lexer) : Except DocumentFault Lexer :=
  if l.isFlow then .ok l
  else if l.keyAllowed then .ok (l.openBlock l.cursor.column l.tokens.length t)
  else .error .yaml

def blockEntry (l : Lexer) : Except DocumentFault Lexer := do
  let l ← (← l.openHere .blockSequence).forgetKey
  .ok ((l.allowKey true).mark 1 .blockEntry)

def key (l : Lexer) : Except DocumentFault Lexer := do
  let l ← (← l.openHere .blockMapping).forgetKey
  .ok ((l.allowKey !l.isFlow).mark 1 .key)

/-- A colon makes a key of what is pending on its level. -/
def value (l : Lexer) : Except DocumentFault Lexer := do
  match l.pending.find? (fun k => k.level == l.level) with
  | some k =>
    let others := l.pending.filter (fun k => k.level != l.level)
    let l := { l with pending := others }.insert k.token .key
    let l := if l.isFlow then l else l.openBlock k.place.column k.token .blockMapping
    .ok ((l.allowKey false).mark 1 .value)
  | none =>
    let l ← (← l.openHere .blockMapping).forgetKey
    .ok ((l.allowKey !l.isFlow).mark 1 .value)

/-- What may follow the word of an anchor. -/
def endsAnchor (cs : List Char) : Bool :=
  endsWord cs || (cs.head?.map "?:,]\x7d%@\x60".toList.contains).getD false

/-- The word of an anchor or an alias. -/
def anchorWord (cs : List Char) : Except DocumentFault (String × List Char) :=
  let word := cs.takeWhile isWordChar
  let rest := cs.dropWhile isWordChar
  if !word.isEmpty && endsAnchor rest then .ok (String.ofList word, rest) else .error .yaml

def anchor (t : String → Token) (l : Lexer) : Except DocumentFault Lexer := do
  let l := (← l.saveKey).allowKey false
  let (word, rest) ← anchorWord (l.cursor.rest.drop 1)
  .ok ((l.moveTo rest).push (t word))

/-- A handle of tags: an exclamation mark by itself, or a word between two. -/
def takeHandle : List Char → Except DocumentFault (String × List Char)
  | '!' :: cs =>
    match cs.dropWhile isWordChar with
    | '!' :: rest => .ok (String.ofList ('!' :: cs.takeWhile isWordChar ++ ['!']), rest)
    | _ => if cs.head? = some ' ' then .ok ("!", cs) else .error .yaml
  | _ => .error .yaml

def isTagChar (c : Char) : Bool :=
  c.isAlphanum || "-;/?:@&=+$,_.!~*'()[]".toList.contains c

/-- Characters that are written as the bytes of their codes. -/
def takeEscapes : Nat → List Char → Except DocumentFault (List UInt8 × List Char)
  | 0, _ => .error .yaml
  | budget + 1, cs =>
    match cs with
    | '%' :: cs => do
      let (n, rest) ← readHex 2 cs
      let (bytes, rest) ← takeEscapes budget rest
      .ok (n.toUInt8 :: bytes, rest)
    | cs => .ok ([], cs)

/-- The rest of a tag, which may be empty. -/
def takeTagChars : Nat → List Char → Except DocumentFault (List Char × List Char)
  | 0, _ => .error .yaml
  | budget + 1, cs =>
    match cs with
    | '%' :: _ => do
      let (bytes, rest) ← takeEscapes (cs.length + 1) cs
      match String.fromUTF8? ⟨bytes.toArray⟩ with
      | some s => ahead s.toList (takeTagChars budget rest)
      | none => .error .yaml
    | c :: cs => if isTagChar c then ahead [c] (takeTagChars budget cs) else .ok ([], c :: cs)
    | [] => .ok ([], [])

/-- The rest of a tag, which is not empty. -/
def takeTagRest (cs : List Char) : Except DocumentFault (String × List Char) := do
  let (chars, rest) ← takeTagChars (cs.length + 1) cs
  if chars.isEmpty then .error .yaml else .ok (String.ofList chars, rest)

/-- What ends a tag. -/
def endsTag (cs : List Char) : Bool :=
  endsLine cs || cs.head? == some ' '

/-- A tag: in full, without a handle, or behind one. -/
def takeTag (cs : List Char) : Except DocumentFault (Token × List Char) :=
  match cs with
  | '!' :: '<' :: cs => do
    match ← takeTagRest cs with
    | (s, '>' :: rest) => .ok (.tag none s, rest)
    | _ => .error .yaml
  | '!' :: rest =>
    if endsWord rest then .ok (.tag none "!", rest)
    else if (rest.takeWhile (fun c => !endsTag [c])).contains '!' then do
      let (handle, rest) ← takeHandle cs
      let (s, rest) ← takeTagRest rest
      .ok (.tag (some handle) s, rest)
    else do
      let (s, rest) ← takeTagRest rest
      .ok (.tag (some "!") s, rest)
  | _ => .error .yaml

def tag (l : Lexer) : Except DocumentFault Lexer := do
  let l := (← l.saveKey).allowKey false
  let (t, rest) ← takeTag l.cursor.rest
  if endsTag rest then .ok ((l.moveTo rest).push t) else .error .yaml

/-- The two numbers of a version, with a point between them. -/
def takeVersion (cs : List Char) : Except DocumentFault (Directive × List Char) :=
  match cs.takeWhile Char.isDigit, cs.dropWhile Char.isDigit with
  | d :: ds, '.' :: rest =>
    match rest.takeWhile Char.isDigit, rest.dropWhile Char.isDigit with
    | _ :: _, rest =>
      if !endsTag rest then .error .yaml
      else if Number.digitLimit < (d :: ds).length then .error .scalar
      else .ok (.version (Text.ofDigits ((d :: ds).map (fun c => c.toNat - 48))), rest)
    | [], _ => .error .yaml
  | _, _ => .error .yaml

/-- A directive after its percent sign. -/
def takeDirective (cs : List Char) : Except DocumentFault (Directive × List Char) := do
  let word := cs.takeWhile isWordChar
  let rest := cs.dropWhile isWordChar
  if word.isEmpty || !endsTag rest then .error .yaml
  else if word == "YAML".toList then takeVersion (dropSpaces rest)
  else if word == "TAG".toList then
    let (handle, rest) ← takeHandle (dropSpaces rest)
    if rest.head? = some ' ' then
      let (start, rest) ← takeTagRest (dropSpaces rest)
      if endsTag rest then .ok (.tag handle start, rest) else .error .yaml
    else .error .yaml
  else .ok (.other, rest.dropWhile (fun c => !endsLine [c]))

def directive (l : Lexer) : Except DocumentFault Lexer := do
  let l ← l.close
  let (d, rest) ← takeDirective (l.cursor.rest.drop 1)
  let rest := dropComment (dropSpaces rest)
  if endsLine rest then
    .ok ((l.moveTo (((lineBreak? rest).map (·.2)).getD rest)).push (.directive d))
  else .error .yaml

def quoted (read : Nat → List Char → Except DocumentFault (List Char × List Char))
    (l : Lexer) : Except DocumentFault Lexer := do
  let l := (← l.saveKey).allowKey false
  let cs := l.cursor.rest.drop 1
  let (chars, rest) ← read (cs.length + 1) cs
  .ok ((l.moveTo rest).push (.scalar false (String.ofList chars)))

def block (folded : Bool) (l : Lexer) : Except DocumentFault Lexer := do
  let l ← (l.allowKey true).forgetKey
  let (chars, cursor) ← readBlock folded l.indent l.cursor.step
  .ok ({ l with cursor }.push (.scalar false (String.ofList chars)))

/-- A plain scalar. When it ends behind a line break, a key may follow. -/
def plain (l : Lexer) : Except DocumentFault Lexer := do
  let l ← l.saveKey
  let s := readPlain l.isFlow (l.indent + 1) (l.cursor.rest.length + 1) []
    ⟨[], l.cursor.line, l.cursor⟩
  let l := { l with cursor := s.after, keyAllowed := s.lastLine != s.after.line }
  .ok (l.push (.scalar true (String.ofList s.chars)))

/-- The last token. -/
def finish (l : Lexer) : Except DocumentFault Lexer := do
  .ok ({ ← l.close with pending := [] }.push .streamEnd)

/-- The next token, or those that it brings with it. -/
def step (l : Lexer) : Except DocumentFault Lexer := do
  let l ← l.skipBlank.forgetStale
  let l := l.unwind l.cursor.column
  let flow := l.isFlow
  match l.cursor.rest with
  | [] => l.finish
  | c :: cs =>
    if c = '%' && l.cursor.column = 0 then l.directive
    else if l.cursor.atMark then
      l.documentMark (if c = '-' then .documentStart else .documentEnd)
    else if c = '[' then l.flowStart .flowSequence
    else if c = '\x7b' then l.flowStart .flowMapping
    else if c = ']' then l.flowEnd .flowSequenceEnd
    else if c = '\x7d' then l.flowEnd .flowMappingEnd
    else if c = ',' then l.flowEntry
    else if c = '-' && endsWord cs then l.blockEntry
    else if c = '?' && (flow || endsWord cs) then l.key
    else if c = ':' && (flow || endsWord cs) then l.value
    else if c = '*' then l.anchor .alias
    else if c = '&' then l.anchor .anchor
    else if c = '!' then l.tag
    else if c = '|' && !flow then l.block false
    else if c = '>' && !flow then l.block true
    else if c = '\x27' then l.quoted readSingle
    else if c = '"' then l.quoted readDouble
    else if startsPlain flow (c :: cs) then l.plain
    else .error .yaml

/-- The tokens that are certain: those ahead of anything that may be a key. -/
def certain (l : Lexer) : List Token :=
  l.tokens.take (l.pending.foldl (fun n k => min n k.token) l.tokens.length)

/-- All tokens of a text, or those ahead of a fault and the fault. -/
def run : Nat → Lexer → List Token × DocumentFault
  | 0, l => (l.tokens, .yaml)
  | budget + 1, l =>
    match l.step with
    | .error f => (((l.forgetStale).toOption.getD l).certain, f)
    | .ok l => if l.tokens.getLast? = some .streamEnd then (l.tokens, .yaml) else run budget l

end Lexer

/-- The tokens of a text, and the fault behind the last of them. After the token for the end there
is nothing to be read. -/
def tokens (cs : List Char) : List Token × DocumentFault :=
  Lexer.run (cs.length + 2) { cursor := ⟨cs, 0, 0, 0⟩ }

end FunctionCatalog.Yaml
