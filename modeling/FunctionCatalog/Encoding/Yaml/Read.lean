import FunctionCatalog.Encoding.Yaml.Node
import FunctionCatalog.Value.Equality

/-
  FunctionCatalog: reading YAML documents.
  `Yaml.read` is the value of the one document that a text holds. A mapping becomes a record; what
  is merged into it comes first, and a later field replaces an earlier one with the same key.
-/

namespace FunctionCatalog.Yaml

/-- The digit that a character is in some base. -/
def digitIn? (base : Nat) (c : Char) : Option Nat :=
  (hexDigit? c).bind (fun d => if d < base then some d else none)

/-- The number that digits write in some base; there is at least one digit. -/
def numberIn? (base : Nat) (cs : List Char) : Option Nat :=
  if cs.isEmpty then none else cs.foldlM (fun n c => (digitIn? base c).map (base * n + ·)) 0

/-- The value of digits in base ten, or of several groups of them in base sixty. -/
def decimalInt? (cs : List Char) : Option Int :=
  (colonPieces cs).foldlM (fun n ds => (Number.readInt? (String.ofList ds)).map (60 * n + ·)) 0

/-- A number without the underscores in it. -/
def digitsOf (cs : List Char) : List Char :=
  cs.filter (· != '_')

/-- The value of a whole number. -/
def intValue? (cs : List Char) : Option Int :=
  let digits := digitsOf cs
  let size : Option Int := match dropSign digits with
    | '0' :: 'b' :: ds => (numberIn? 2 ds).map (↑·)
    | '0' :: 'x' :: ds => (numberIn? 16 ds).map (↑·)
    | '0' :: ds => (numberIn? 8 ('0' :: ds)).map (↑·)
    | unsigned => decimalInt? unsigned
  size.map (fun n => if digits.head? = some '-' then -n else n)

/-- The value of a number in base sixty, from its parts, the last one first. -/
def sexagesimalValue (parts : List Binary64) : Binary64 :=
  let step (sum : Binary64 × Int) (part : Binary64) : Binary64 × Int :=
    (sum.1.add (part.mul (.ofInt sum.2)), 60 * sum.2)
  (parts.foldl step (.zero false, 1)).1

/-- The value of a number with a point. There is one NaN for all documents. -/
def floatValue? (cs : List Char) : Option Binary64 :=
  let digits := (digitsOf cs).map Char.toLower
  let unsigned := dropSign digits
  let signed (x : Binary64) : Binary64 := if digits.head? = some '-' then x.neg else x
  if unsigned == ".inf".toList then some (signed (.infinity false))
  else if unsigned == ".nan".toList then some .notNumber
  else
    match colonPieces unsigned with
    | [ds] => (Number.readDouble? (String.ofList ds)).map signed
    | parts => do
      let parts ← parts.mapM (fun ds => Number.readDouble? (String.ofList ds))
      some (signed (sexagesimalValue parts.reverse))

/-- What could not be read as a number. -/
def ofNumber {α : Type} (make : α → Value) (x : Option α) : Except DocumentFault Value :=
  match x with
  | some a => .ok (make a)
  | none => .error .scalar

/-- The value of a scalar. -/
def scalarValue (kind : ScalarKind) (s : String) : Except DocumentFault Value :=
  match kind with
  | .null => .ok .null
  | .bool =>
    let word := s.map Char.toLower
    if trueWords.contains word then .ok (.bool true)
    else if falseWords.contains word then .ok (.bool false)
    else .error .noTruth
  | .int =>
    if (dropSign (digitsOf s.toList)).isEmpty then .error .noDigits
    else ofNumber .int (intValue? s.toList)
  | .float =>
    if (digitsOf s.toList).isEmpty then .error .noDigits
    else ofNumber .double (floatValue? s.toList)
  | .moment =>
    match Timestamp.ofText? s.toList with
    | some t => ofNumber .moment t.moment?
    | none => .error .noMoment
  | .text => .ok (.text s)
  | .merge | .default | .mark => .error .yaml

/-- Sets a field; one that is there keeps its key and its place. -/
def setField (fields : List (Value × Value)) (field : Value × Value) : List (Value × Value) :=
  if fields.any (fun f => f.1.same field.1) then
    fields.map (fun f => if f.1.same field.1 then (f.1, field.2) else f)
  else fields ++ [field]

/-- The record of some fields. -/
def recordOf (fields : List (Value × Value)) : Value :=
  let fields := fields.foldl setField []
  .record (fields.map (·.1)) (fields.map (·.2))

/-- A result, or a fault with how deep in a node it lies. Collections are filled level by level, so
the fault of the least depth is the one that counts. -/
abbrev Filling (α : Type) := Except (Nat × DocumentFault) α

namespace Filling

/-- What fails, if it does, at the level of the collection that holds it. -/
def here {α : Type} : Except DocumentFault α → Filling α :=
  Except.mapError (fun f => (0, f))

/-- What lies inside a collection. -/
def inside {α : Type} : Filling α → Filling α :=
  Except.mapError (fun f => (f.1 + 1, f.2))

def both {α β : Type} : Filling α → Filling β → Filling (α × β)
  | .ok a, .ok b => .ok (a, b)
  | .ok _, .error g => .error g
  | .error f, .ok _ => .error f
  | .error f, .error g => .error (if g.1 < f.1 then g else f)

def all {α : Type} : List (Filling α) → Filling (List α)
  | [] => .ok []
  | x :: xs => (both x (all xs)).map (fun r => r.1 :: r.2)

end Filling

/-- The fields of a mapping: those that are merged into it, and its own. -/
structure Fields where
  merged : List (Filling (Value × Value)) := []
  own : List (Filling (Value × Value)) := []

def Fields.all (f : Fields) : List (Filling (Value × Value)) :=
  f.merged ++ f.own

/-- A key that stands for the fields of other mappings. -/
def Node.isMerge : Node → Bool
  | .scalar .merge _ => true
  | _ => false

mutual

/-- The value of a node. -/
def Node.value : Node → Filling Value
  | .scalar kind s => .here (scalarValue kind s)
  | .sequence items => (Filling.all (Node.values items)).inside.map .list
  | .mapping fields => Filling.inside (do
    let fields ← Filling.here (Node.fieldsOf fields)
    return recordOf (← Filling.all fields.all))
  | .strange => .here (.error .yaml)

def Node.values : List Node → List (Filling Value)
  | [] => []
  | n :: ns => Node.value n :: Node.values ns

/-- A key; one that stands for the value of a mapping is a text here. A collection is no key. -/
def Node.key : Node → Except DocumentFault Value
  | .scalar .default s => .ok (.text s)
  | .scalar kind s => scalarValue kind s
  | n =>
    match Node.value n with
    | .ok _ => .error .yaml
    | .error f => .error f.2

/-- The fields of a mapping. What cannot be merged is a fault of the mapping itself. -/
def Node.fieldsOf : List (Node × Node) → Except DocumentFault Fields
  | [] => .ok {}
  | (key, value) :: rest => do
    if key.isMerge then
      let merged ← Node.mergedFrom value
      let fields ← Node.fieldsOf rest
      return { fields with merged := merged ++ fields.merged }
    else
      let field := Filling.both (.here (Node.key key)) (Node.value value)
      let fields ← Node.fieldsOf rest
      return { fields with own := field :: fields.own }

/-- The fields that a mapping gives, or those of several mappings, the last one first. -/
def Node.mergedFrom : Node → Except DocumentFault (List (Filling (Value × Value)))
  | .mapping fields => do return (← Node.fieldsOf fields).all
  | .sequence items => Node.mergedFromAll items
  | _ => .error .yaml

def Node.mergedFromAll : List Node → Except DocumentFault (List (Filling (Value × Value)))
  | [] => .ok []
  | .mapping fields :: rest => do
    let first ← Node.fieldsOf fields
    return (← Node.mergedFromAll rest) ++ first.all
  | _ => .error .yaml

end

/-- Characters that a document may hold. -/
def isDocumentChar (c : Char) : Bool :=
  let n := c.toNat
  n == 0x09 || n == 0x0a || n == 0x0d || (0x20 ≤ n && n ≤ 0x7e) || n == 0x85 ||
    (0xa0 ≤ n && n ≤ 0xd7ff) || (0xe000 ≤ n && n ≤ 0xfffd) || 0x10000 ≤ n

/-- The document that a text holds; a text without any holds nothing. -/
def document (text : String) : Except DocumentFault Value := do
  let cs := text.toList
  if cs.all isDocumentChar then
    match ← Node.ofTokens (tokens cs) with
    | some n => n.value.mapError (·.2)
    | none => .ok .null
  else .error .yaml

def read (text : String) : Except Failure Value :=
  (document text).mapError .document

end FunctionCatalog.Yaml
