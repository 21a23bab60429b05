import FunctionCatalog.Value.Text

/-
  FunctionCatalog: why something fails.
  Each cause has its constructor. `word` is the word for the kind of a failure, `message?` is its
  wording, which only causes of the library's own have, and `details` are the parts that are handed
  out with it.
-/

namespace FunctionCatalog

/-- Why a value has no form as a parameter. -/
inductive FormatFault where
  | boolean
  | number (x : Binary64)
  | kind (word : String)
  | digitLimit

def FormatFault.message? : FormatFault → Option String
  | boolean => some "Boolean parameters are not supported"
  | number x => some ("Unsupported number " ++ x.text)
  | kind word => some ("Unsupported parameter type " ++ word)
  | digitLimit => none

/-- Why an operation has no result for its arguments, beside their kinds. -/
inductive CallFault where
  | emptyList
  | overflow
  | memory
  | notInteger
deriving DecidableEq, Repr

/-- Why a document cannot be read. -/
inductive DocumentFault where
  | json
  | yaml
  /-- A scalar is spelled like a number or a moment that there is not. -/
  | scalar
  /-- A scalar is tagged as a number and holds no digits. -/
  | noDigits
  /-- A scalar is tagged as a truth value and is no word for one. -/
  | noTruth
  /-- A scalar is tagged as a moment and is not written like one. -/
  | noMoment
  /-- The code of an escaped character is too large for any machine word. -/
  | overflow
deriving DecidableEq, Repr

/-- What needs a name to be built. -/
inductive NameHolder where
  | info
  | selector
  | alias
  | function
deriving DecidableEq, Repr

def NameHolder.text : NameHolder → String
  | .info => "Info"
  | .selector => "Selector"
  | .alias => "Alias"
  | .function => "Function"

inductive Failure where
  | rejection (r : Rejection)
  | format (f : FormatFault)
  | call (f : CallFault)
  | document (f : DocumentFault)
  | print (f : PrintFault)
  | unknownName (name : Value)
  | aliasArguments (name : Value) (values : List Value)
  /-- The names that several members advertise, with the tokens of all who do. -/
  | collisions (names : List (Name × List String))
  | noProviders
  | noFunctions
  | selectorValues (selector : Selector) (count : Nat)
  | notNamed (kind : String)
  | notCallable (name : Name)
  /-- A name was to be made from something that is no text. -/
  | nameNotText (kind : String)
  /-- Something that is no name was given for one. -/
  | notName (holder : NameHolder) (kind : String)
  /-- A token that is no text and does not hold proper texts either. -/
  | badToken (shown : String)
  | emptySet (kind : SetKind)
  | notList (kind : String)
  | strayMarker (shown : String)
  | missingField
  /-- Something was asked for a part or an operation that its kind does not have. -/
  | noSuchPart
  /-- A value of another kind was needed. -/
  | wrongKind
  | unknownMode
  | badNumber
  /-- There cannot be such an environment variable. -/
  | badVariable
  /-- An environment variable has a value of the wrong form. -/
  | badEnvironment
  | outOfRange
  | unbound (label : String)

/-- The word for the kind of a refusal. -/
def Rejection.word : Rejection → String
  | name _ => "InvalidNameError"
  | parse _ => "ParseError"
  | duplicateNames _ => "DuplicateNameError"
  | digitLimit | token _ | passThroughToken _ | aliasTarget _ _ => "ValueError"

namespace Failure

/-- A name that is not known; what cannot be shown fails for that. -/
def unknown (name : Value) : Failure :=
  match name.print with
  | .ok _ => unknownName name
  | .error f => print f

/-- Values for an alias, which brings its own; what cannot be shown fails for that. -/
def argumentsFor (name : Value) (values : List Value) : Failure :=
  match name.print with
  | .ok _ => aliasArguments name values
  | .error f => print f

/-- What is shown of a value in a failure. -/
def shown (v : Value) : String :=
  match v.print with
  | .ok text => text
  | .error _ => ""

def word : Failure → String
  | rejection r => r.word
  | format .boolean | format (.kind _) => "TypeError"
  | format (.number _) | format .digitLimit => "ValueError"
  | call .emptyList | call .notInteger => "ValueError"
  | call .overflow | document .overflow => "OverflowError"
  | call .memory => "MemoryError"
  | document .json => "JSONDecodeError"
  | document .yaml => "YAMLError"
  | print .digitLimit => "ValueError"
  | print .noText | document .noMoment | noSuchPart => "AttributeError"
  | unknownName _ => "UnknownNameError"
  | aliasArguments _ _ => "AliasArgumentMismatchError"
  | collisions _ => "NameCollisionError"
  | noProviders => "EmptyProviderSetError"
  | emptySet _ => "LookupError"
  | missingField | document .noTruth => "KeyError"
  | badEnvironment => "ValidationError"
  | outOfRange | document .noDigits => "IndexError"
  | unbound _ => "DriverError"
  | selectorValues _ _ | notNamed _ | notCallable _ | nameNotText _ | notName _ _ | notList _
  | wrongKind => "TypeError"
  | document .scalar | noFunctions | badToken _ | strayMarker _ | unknownMode | badNumber
  | badVariable => "ValueError"

def message? : Failure → Option String
  | rejection r => r.message?
  | format f => f.message?
  | unknownName name => some ("Unknown function " ++ shown name)
  | aliasArguments name values =>
    some ("Alias " ++ shown name ++ " should have no values, got " ++ Number.natText values.length)
  | collisions names =>
    some (", ".intercalate
      (names.map (fun c => c.1.value ++ " (" ++ ", ".intercalate c.2 ++ ")")))
  | noProviders => some "Providers cannot be empty"
  | noFunctions => some "Functions cannot be empty"
  | selectorValues selector count =>
    some ("Selector " ++ selector.text ++ " takes its values from its text, got " ++
      Number.natText count)
  | notNamed kind => some ("Expected Name or str, got " ++ kind)
  | notCallable name => some ("Function " ++ name.value ++ " implementation is not callable")
  | nameNotText kind => some ("Name value must be str, got " ++ kind)
  | notName holder kind => some (holder.text ++ " name must be Name, got " ++ kind)
  | badToken shown => some ("Invalid canonical token " ++ shown)
  | emptySet kind => some (kind.text ++ " is empty")
  | notList kind => some ("Expected list, got " ++ kind)
  | strayMarker shown =>
    some ("Case sensitivity marker must be the first element, got " ++ shown)
  | unbound label => some ("unbound " ++ label)
  | call _ | document _ | print _ | missingField | noSuchPart | wrongKind | unknownMode | badNumber
  | badVariable | badEnvironment | outOfRange => none

/-- Where something is wrong in a text. -/
def position (text : String) (p : Option Int) : List (String × Value) :=
  [("text", .text text), ("position", match p with
    | some i => .int i
    | none => .null)]

/-- The parts of a refusal. -/
def ofRejectionDetails : Rejection → List (String × Value)
  | .name e => position e.text (some e.position)
  | .parse e => position e.text (e.position.map (fun n => (n : Int)))
  | .duplicateNames names => [("names", .list (names.map .name))]
  | _ => []

/-- The parts of a failure, with the words for them. -/
def details : Failure → List (String × Value)
  | rejection r => ofRejectionDetails r
  | unknownName name => [("name", name)]
  | aliasArguments name values => [("name", name), ("values", .list values)]
  | collisions names =>
    [("collisions",
      .list (names.map (fun c => .list [.name c.1, .list (c.2.map .text)])))]
  | _ => []

/-- What follows from a value that is shown. -/
def ofPrint {α : Type} : Except PrintFault α → Except Failure α :=
  Except.mapError .print

def ofRejection {α : Type} : Except Rejection α → Except Failure α :=
  Except.mapError .rejection

def ofOption {α : Type} (f : Failure) : Option α → Except Failure α
  | some a => .ok a
  | none => .error f

end Failure

end FunctionCatalog
