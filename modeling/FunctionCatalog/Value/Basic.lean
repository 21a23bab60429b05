import FunctionCatalog.Alias.Basic
import FunctionCatalog.Moment
import FunctionCatalog.NamedSet.Kind

/-
  FunctionCatalog: values.
  A value is whatever can be stored, bound to a function or handed to one. An item is a value with a
  name that can take another one; items are what sets hold. A named function is an operation with
  the name it was resolved under and the values bound ahead of the arguments of a call.
-/

namespace FunctionCatalog

/-- The operations that functions carry out. -/
inductive Operation where
  | abs
  | max
  | min
  | upper
  | lower
  | total
  | concat
  | wrap
  | roundTo
  | repeatText
  | echo
deriving DecidableEq, Repr

/-- How an alias set treats a name: it forwards it, gives it another target, or does not know it. -/
inductive AliasClaim where
  | passThrough
  | alias
  | unclaimed
deriving DecidableEq, Repr

def AliasClaim.text : AliasClaim → String
  | .passThrough => "pass-through"
  | .alias => "alias"
  | .unclaimed => "unclaimed"

/-- The word for a claim, by which it is shown. -/
def AliasClaim.word : AliasClaim → String
  | .passThrough => "PASS_THROUGH"
  | .alias => "ALIAS"
  | .unclaimed => "UNCLAIMED"

/-- The word for a mode, by which it is shown. -/
def CaseMode.word : CaseMode → String
  | .sensitive => "SENSITIVE"
  | .insensitive => "INSENSITIVE"

/-- The kinds of providers. -/
inductive ProviderKind where
  | basic
  | empty
  | alias
  | filtered
  | renamed
  | merged
  | aggregating
  | recorder
  | raw
deriving DecidableEq, Repr

/-- The word for a kind of provider. -/
def ProviderKind.text : ProviderKind → String
  | .basic => "BasicProvider"
  | .empty => "EmptyProvider"
  | .alias => "AliasProvider"
  | .filtered => "FilteredProvider"
  | .renamed => "RenamedProvider"
  | .merged => "MergedMappedProvider"
  | .aggregating => "AggregatingProvider"
  | .recorder => "Recorder"
  | .raw => "Raw"

/-- A provider as a value: its kind, which object it is, and what it says of itself. -/
structure ProviderRef where
  kind : ProviderKind
  id : Nat
  mode : CaseMode
  /-- The texts of what it advertises. -/
  infos : List String
  text : String
deriving DecidableEq

mutual

inductive Value where
  | null
  | bool (b : Bool)
  | int (i : Int)
  | double (x : Binary64)
  | text (s : String)
  | list (vs : List Value)
  | tuple (vs : List Value)
  /-- Keys with a value for each, in the order in which they came. -/
  | record (keys values : List Value)
  | moment (m : Moment)
  | mode (m : CaseMode)
  | claim (c : AliasClaim)
  | name (n : Name)
  | item (i : Item)
  /-- The entries are in the mode of the set and in order. -/
  | set (kind : SetKind) (mode : CaseMode) (entries : List Item) (handle : Handle)
  | operation (o : Operation)
  | provider (p : ProviderRef)
  | outcome (call : Nat)

inductive Item where
  | info (i : Info)
  /-- An info whose token is no text but holds texts. -/
  | infoWith (name : Name) (token : Value) (handle : Handle)
  | selector (s : Selector)
  | alias (a : Alias)
  /-- An alias whose token is no text but holds texts. -/
  | aliasWith (name : Name) (target : Selector) (token : Value) (handle : Handle)
  | function (f : NamedFunction)

structure NamedFunction where
  name : Name
  operation : Operation
  parameters : List Value
  handle : Handle

end

namespace Item

def name : Item → Name
  | info i => i.name
  | infoWith n _ _ => n
  | selector s => s.name
  | .alias a => a.name
  | aliasWith n _ _ _ => n
  | function f => f.name

def handle : Item → Handle
  | info i => i.handle
  | infoWith _ _ h => h
  | selector s => s.handle
  | .alias a => a.handle
  | aliasWith _ _ _ h => h
  | function f => f.handle

/-- The word for the kind of an item, as error messages use it. -/
def kindText : Item → String
  | info _ | infoWith _ _ _ => "Info"
  | selector _ => "Selector"
  | .alias _ | aliasWith _ _ _ _ => "Alias"
  | function _ => "NamedFunction"

end Item

/-- The word for the kind of callable that an operation is. -/
def Operation.kindText : Operation → String
  | .abs | .max | .min => "builtin_function_or_method"
  | .upper | .lower => "method_descriptor"
  | _ => "function"

namespace Value

/-- A value that is a number; truth values count as one and zero. -/
def number? : Value → Option Number
  | bool b => some (.int (if b then 1 else 0))
  | int i => some (.int i)
  | double x => some (.double x)
  | _ => none

/-- A value that is a whole number. -/
def int? : Value → Option Int
  | bool b => some (if b then 1 else 0)
  | int i => some i
  | _ => none

/-- A value that is a text; a mode counts as its text. -/
def text? : Value → Option String
  | text s => some s
  | mode m => some m.text
  | _ => none

def ofNumber : Number → Value
  | .int i => .int i
  | .double x => .double x

/-- The characters of a text as texts. -/
def characters (s : String) : List Value :=
  s.toList.map (fun c => .text (String.singleton c))

/-- The items of a value that has items; those of a record are its keys. -/
def items? : Value → Option (List Value)
  | text s => some (characters s)
  | mode m => some (characters m.text)
  | list vs => some vs
  | tuple vs => some vs
  | record ks _ => some ks
  | set _ _ es _ => some (es.map .item)
  | _ => none

/-- Whether a value counts as true: nothing, zero and what has no items do not. -/
def isTruthy : Value → Bool
  | null => false
  | bool b => b
  | int i => i != 0
  | double x => !x.isZero
  | v =>
    match v.items? with
    | some vs => !vs.isEmpty
    | none => true

/-- The word for the kind of a value, as error messages use it. -/
def kindText : Value → String
  | null => "NoneType"
  | bool _ => "bool"
  | int _ => "int"
  | double _ => "float"
  | text _ => "str"
  | list _ => "list"
  | tuple _ => "tuple"
  | record _ _ => "dict"
  | moment m => m.kindText
  | mode _ => "CaseSensitivity"
  | claim _ => "AliasClaim"
  | name _ => "Name"
  | item i => i.kindText
  | set kind _ _ _ => kind.text
  | operation o => o.kindText
  | provider p => p.kind.text
  | outcome _ => "object"

/-- What a value gives for its name: an item has a name, a mode and a claim have a word. -/
def namePart? : Value → Option Value
  | item i => some (.name i.name)
  | mode m => some (.text m.word)
  | claim c => some (.text c.word)
  | _ => none

/-- The text that a name, a mode or a claim stands for. -/
def valuePart? : Value → Option String
  | name n => some n.value
  | mode m => some m.text
  | claim c => some c.text
  | _ => none

/-- The mode in which a value compares names. -/
def modePart? : Value → Option CaseMode
  | name n => some n.mode
  | set _ m _ _ => some m
  | provider p => some p.mode
  | _ => none

/-- A record of fields with texts for keys. -/
def ofFields (fields : List (String × Value)) : Value :=
  .record (fields.map (fun f => .text f.1)) (fields.map (·.2))

end Value

end FunctionCatalog
