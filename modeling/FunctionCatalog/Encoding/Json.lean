import FunctionCatalog.Failure
import FunctionCatalog.Number.Numeral

/-
  FunctionCatalog: JSON.
  `Json.writeTexts` writes a list of texts in ASCII alone. `Json.read` reads any document.
-/

namespace FunctionCatalog.Json

/-- The escape of one UTF-16 unit. -/
def escapeUnit (n : Nat) : List Char :=
  '\\' :: 'u' :: Text.hexDigits 4 n

/-- A character in a JSON text; beyond ASCII it is written by its UTF-16 units. -/
def escape (c : Char) : List Char :=
  if c = '"' then ['\\', '"']
  else if c = '\\' then ['\\', '\\']
  else if c = '\n' then ['\\', 'n']
  else if c = '\r' then ['\\', 'r']
  else if c = '\t' then ['\\', 't']
  else if c = '\x0c' then ['\\', 'f']
  else if c = '\x08' then ['\\', 'b']
  else if 0x20 ≤ c.toNat && c.toNat ≤ 0x7e then [c]
  else if c.toNat < 0x10000 then escapeUnit c.toNat
  else
    escapeUnit (0xd800 + (c.toNat - 0x10000) / 0x400) ++
      escapeUnit (0xdc00 + (c.toNat - 0x10000) % 0x400)

def textChars (s : String) : List Char :=
  '"' :: s.toList.flatMap escape ++ ['"']

def writeTexts (texts : List String) : String :=
  String.ofList ('[' :: [',', ' '].intercalate (texts.map textChars) ++ [']'])

/-- What a text is not that cannot be read. -/
def malformed : Failure := .document .json

def isSpace (c : Char) : Bool :=
  c == ' ' || c == '\t' || c == '\n' || c == '\r'

def skipSpace (cs : List Char) : List Char :=
  cs.dropWhile isSpace

def hexValue? (c : Char) : Option Nat :=
  if c.isDigit then some (c.toNat - 48)
  else if 'a' ≤ c && c ≤ 'f' then some (c.toNat - 87)
  else if 'A' ≤ c && c ≤ 'F' then some (c.toNat - 55)
  else none

/-- The number that hexadecimal digits write. -/
def hexNumber? (cs : List Char) : Option Nat :=
  cs.foldlM (fun n c => (hexValue? c).map (16 * n + ·)) 0

/-- The character of a simple escape. -/
def unescape? (c : Char) : Option Char :=
  if c = '"' then some '"'
  else if c = '\\' then some '\\'
  else if c = '/' then some '/'
  else if c = 'b' then some '\x08'
  else if c = 'f' then some '\x0c'
  else if c = 'n' then some '\n'
  else if c = 'r' then some '\r'
  else if c = 't' then some '\t'
  else none

/-- The code units of a text after its opening quote, and what follows the closing one. -/
def readUnits : List Char → Option (List Nat × List Char)
  | [] => none
  | '"' :: cs => some ([], cs)
  | '\\' :: 'u' :: a :: b :: c :: d :: cs => do
    let unit ← hexNumber? [a, b, c, d]
    let (units, rest) ← readUnits cs
    some (unit :: units, rest)
  | '\\' :: e :: cs => do
    let c ← unescape? e
    let (units, rest) ← readUnits cs
    some (c.toNat :: units, rest)
  | c :: cs => do
    if c.toNat < 0x20 || c = '\\' then none
    else
      let (units, rest) ← readUnits cs
      some (c.toNat :: units, rest)

/-- Joins the pairs of units that stand for one character. -/
def ofUnits : List Nat → List Char
  | [] => []
  | [n] => [Char.ofNat n]
  | n :: m :: ns =>
    if 0xd800 ≤ n && n < 0xdc00 && 0xdc00 ≤ m && m < 0xe000 then
      Char.ofNat (0x10000 + (n - 0xd800) * 0x400 + (m - 0xdc00)) :: ofUnits ns
    else Char.ofNat n :: ofUnits (m :: ns)

def readText (cs : List Char) : Option (String × List Char) :=
  (readUnits cs).map (fun r => (String.ofList (ofUnits r.1), r.2))

/-- The leading ASCII digits, and what follows them. -/
def takeDigits (cs : List Char) : List Nat × List Char :=
  ((cs.takeWhile Char.isDigit).map (fun c => c.toNat - 48), cs.dropWhile Char.isDigit)

/-- The digits after the point, when there are any. -/
def takeFraction : List Char → Option (List Nat) × List Char
  | '.' :: cs =>
    match takeDigits cs with
    | ([], _) => (none, '.' :: cs)
    | (ds, rest) => (some ds, rest)
  | cs => (none, cs)

/-- The exponent, when its mark is followed by a digit. -/
def takeExponent : List Char → Option Int × List Char
  | [] => (none, [])
  | c :: cs =>
    if c = 'e' || c = 'E' then
      let (negative, signed) := Numeral.takeSign cs
      match takeDigits signed with
      | ([], _) => (none, c :: cs)
      | (ds, rest) =>
        let power : Int := Text.ofDigits ds
        (some (if negative then -power else power), rest)
    else (none, c :: cs)

/-- A number after its sign: no leading zeros, and digits after a point and after an exponent. -/
def readNumber (negative : Bool) (cs : List Char) : Except Failure (Value × List Char) :=
  let (whole, rest) := match takeDigits cs with
    | (0 :: _ :: _, _) => ([0], cs.drop 1)
    | r => r
  if whole.isEmpty then .error malformed
  else
    let (fraction, rest) := takeFraction rest
    let (exponent, rest) := takeExponent rest
    if fraction.isNone && exponent.isNone then
      if Number.digitLimit < whole.length then .error (.rejection .digitLimit)
      else
        let i : Int := Text.ofDigits whole
        .ok (.int (if negative then -i else i), rest)
    else
      let decimals := fraction.getD []
      let d : Decimal :=
        ⟨Text.ofDigits (whole ++ decimals), exponent.getD 0 - (decimals.length : Int)⟩
      .ok (.double (d.nearest negative), rest)

/-- A word with a meaning of its own. There is one NaN for all documents. -/
def readWord? (cs : List Char) : Option (Value × List Char) :=
  let words : List (String × Value) := [
    ("null", .null), ("true", .bool true), ("false", .bool false), ("NaN", .double .notNumber),
    ("Infinity", .double (.infinity false)), ("-Infinity", .double (.infinity true))]
  (words.find? (fun w => w.1.toList.isPrefixOf cs)).map
    (fun w => (w.2, cs.drop w.1.toList.length))

/-- Sets a field; one that is there keeps its place. -/
def setField (key : String) (v : Value) : List (String × Value) → List (String × Value)
  | [] => [(key, v)]
  | (k, w) :: fields => if k = key then (k, v) :: fields else (k, w) :: setField key v fields

mutual

/-- The value at the front of a text, which starts with no space. The budget bounds the number of
steps. -/
def readValue : Nat → List Char → Except Failure (Value × List Char)
  | 0, _ => .error malformed
  | budget + 1, cs =>
    match cs with
    | '"' :: cs =>
      match readText cs with
      | some (s, rest) => .ok (.text s, rest)
      | none => .error malformed
    | '[' :: cs =>
      match skipSpace cs with
      | ']' :: rest => .ok (.list [], rest)
      | cs => (readItems budget cs).map (fun r => (.list r.1, r.2))
    | '\x7b' :: cs =>
      match skipSpace cs with
      | '\x7d' :: rest => .ok (Value.ofFields [], rest)
      | cs => (readFields budget [] cs).map (fun r => (Value.ofFields r.1, r.2))
    | cs =>
      match readWord? cs with
      | some r => .ok r
      | none =>
        match cs with
        | '-' :: cs => readNumber true cs
        | cs => readNumber false cs

/-- The items of a list up to its closing bracket. -/
def readItems : Nat → List Char → Except Failure (List Value × List Char)
  | 0, _ => .error malformed
  | budget + 1, cs => do
    let (d, rest) ← readValue budget cs
    match skipSpace rest with
    | ']' :: rest => .ok ([d], rest)
    | ',' :: rest =>
      let (ds, rest) ← readItems budget (skipSpace rest)
      .ok (d :: ds, rest)
    | _ => .error malformed

/-- The fields of a record up to its closing brace, after the ones already read. -/
def readFields : Nat → List (String × Value) → List Char →
    Except Failure (List (String × Value) × List Char)
  | 0, _, _ => .error malformed
  | budget + 1, fields, cs =>
    match cs with
    | '"' :: cs =>
      match readText cs with
      | none => .error malformed
      | some (key, rest) =>
        match skipSpace rest with
        | ':' :: rest => do
          let (d, rest) ← readValue budget (skipSpace rest)
          let fields := setField key d fields
          match skipSpace rest with
          | '\x7d' :: rest => .ok (fields, rest)
          | ',' :: rest => readFields budget fields (skipSpace rest)
          | _ => .error malformed
        | _ => .error malformed
    | _ => .error malformed

end

/-- The document that a text is. -/
def read (text : String) : Except Failure Value := do
  let cs := text.toList
  let (d, rest) ← readValue (2 * cs.length + 2) (skipSpace cs)
  if (skipSpace rest).isEmpty then .ok d else .error malformed

end FunctionCatalog.Json
