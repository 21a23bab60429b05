import FunctionCatalog.Encoding.Yaml.Timestamp

/-
  FunctionCatalog: what YAML 1.1 scalars are spelled like.
  A scalar without quotes is a text unless it is spelled like a truth value, a null, a number or a
  moment. A tag can say the same of any scalar.
-/

namespace FunctionCatalog.Yaml

inductive ScalarKind where
  | null
  | bool
  | int
  | float
  | moment
  | text
  /-- Stands for the fields of other mappings. -/
  | merge
  /-- Stands for the value of a mapping. -/
  | default
  /-- A mark of the language itself. -/
  | mark
deriving DecidableEq, Repr

/-- Drops one leading sign. -/
def dropSign : List Char → List Char
  | '+' :: cs => cs
  | '-' :: cs => cs
  | cs => cs

def isDigitOr (c : Char) : Bool := c.isDigit || c == '_'

/-- Digits, which may hold underscores after the first. -/
def isDigits : List Char → Bool
  | [] => false
  | c :: cs => c.isDigit && cs.all isDigitOr

/-- One or two digits below sixty. -/
def isSexagesimal : List Char → Bool
  | [c] => c.isDigit
  | [c, d] => '0' ≤ c && c ≤ '5' && d.isDigit
  | _ => false

/-- The pieces of a text between colons. -/
def colonPieces (cs : List Char) : List (List Char) :=
  Text.splitWhere (· == ':') cs

/-- A whole number: binary, octal, decimal, hexadecimal or in base sixty. -/
def isInt (cs : List Char) : Bool :=
  match dropSign cs with
  | '0' :: 'b' :: d :: ds => (d :: ds).all (fun c => c == '0' || c == '1' || c == '_')
  | '0' :: 'x' :: d :: ds =>
    (d :: ds).all (fun c => isDigitOr c || ('a' ≤ c && c ≤ 'f') || ('A' ≤ c && c ≤ 'F'))
  | '0' :: ds => ds.all (fun c => ('0' ≤ c && c ≤ '7') || c == '_')
  | unsigned =>
    match colonPieces unsigned with
    | [ds] => isDigits ds
    | ds :: parts => isDigits ds && parts.all isSexagesimal
    | [] => false

/-- An exponent with its sign, or nothing. -/
def isExponent : List Char → Bool
  | [] => true
  | e :: sign :: ds =>
    (e == 'e' || e == 'E') && (sign == '+' || sign == '-') && !ds.isEmpty && ds.all Char.isDigit
  | _ => false

/-- A number with a point, in base ten or sixty, or a word for an infinity or for no number. -/
def isFloat (cs : List Char) : Bool :=
  let unsigned := dropSign cs
  let word := String.ofList unsigned
  let whole := unsigned.takeWhile (fun c => isDigitOr c || c == ':')
  let decimals (rest : List Char) : Bool :=
    isExponent (rest.dropWhile isDigitOr)
  match unsigned.dropWhile (fun c => isDigitOr c || c == ':') with
  | '.' :: rest =>
    match colonPieces whole with
    | [[]] =>
      word == ".inf" || word == ".Inf" || word == ".INF" ||
        (unsigned.length = cs.length &&
          (word == ".nan" || word == ".NaN" || word == ".NAN" ||
            ((rest.headD ' ').isDigit && decimals rest)))
    | [ds] => isDigits ds && decimals rest
    | ds :: parts => isDigits ds && parts.all isSexagesimal && rest.all isDigitOr
    | [] => false
  | _ => false

def nullWords : List String := ["", "~", "null", "Null", "NULL"]

def trueWords : List String := ["yes", "Yes", "YES", "true", "True", "TRUE", "on", "On", "ON"]

def falseWords : List String := ["no", "No", "NO", "false", "False", "FALSE", "off", "Off", "OFF"]

def markWords : List String := ["!", "&", "*"]

/-- What the common tags start with. -/
def commonTag : String := "tag:yaml.org,2002:"

def sequenceTag : String := commonTag ++ "seq"

def mappingTag : String := commonTag ++ "map"

namespace ScalarKind

/-- What a text is spelled like. -/
def ofText (s : String) : ScalarKind :=
  let cs := s.toList
  if nullWords.contains s then .null
  else if trueWords.contains s || falseWords.contains s then .bool
  else if isFloat cs then .float
  else if isInt cs then .int
  else if s = "<<" then .merge
  else if (Timestamp.ofText? cs).any (·.isProper) then .moment
  else if s = "=" then .default
  else if markWords.contains s then .mark
  else .text

/-- What a tag says of a scalar. -/
def ofTag? (tag : String) : Option ScalarKind :=
  ([("null", null), ("bool", bool), ("int", int), ("float", float), ("timestamp", moment),
    ("str", text), ("merge", merge), ("value", default), ("yaml", mark)] :
      List (String × ScalarKind)).findSome?
    (fun k => if tag = commonTag ++ k.1 then some k.2 else none)

end ScalarKind

/-- Whether a plain scalar stands for itself as a text. -/
def isPlainText (s : String) : Bool :=
  ScalarKind.ofText s == .text

end FunctionCatalog.Yaml
