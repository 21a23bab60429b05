import FunctionCatalog.Number.Literal
import FunctionCatalog.Session.State

/-
  FunctionCatalog: the expressions of a session.
  An expression writes a value down: literally, by the label of a value, or by how it is built. Its
  parts are evaluated in the order in which they stand; each evaluation makes new objects.
-/

namespace FunctionCatalog

/-- How names compare, where an expression says so. -/
abbrev ModeText := Option String

inductive Expression where
  | null
  | bool (b : Bool)
  | text (s : String)
  | list (es : List Expression)
  | int (numeral : String)
  | double (numeral : String)
  | label (l : String)
  | name (value : Expression) (mode : ModeText)
  | info (token name : Expression) (mode : ModeText)
  | parsedSelector (text : String) (mode : ModeText)
  | selector (name : Expression) (valueText : String) (mode : ModeText)
  | alias (name target token : Expression) (mode : ModeText)
  | parsedSet (kind : SetKind) (text : String) (mode : ModeText)
  | set (kind : SetKind) (entries : Expression) (mode : ModeText)
  | function (name : Expression) (operation : Option Operation) (parameters : Expression)
      (mode : ModeText)
  /-- An operation by itself; none is a thing that cannot be called. -/
  | operation (operation : Option Operation)

namespace Run

/-- The mode that a text names; the default one for no text. -/
def mode : ModeText → Run CaseMode
  | none => return (← settings).defaultMode
  | some text => ofOption .unknownMode (CaseMode.ofText? text)

/-- The name that a value writes. -/
def nameOf (v : Value) (m : ModeText) : Run Name := do
  let text ← ofOption (.nameNotText v.kindText) v.text?
  let m ← mode m
  ofName (Name.make (← settings) text m)

/-- A name that is written down by its text alone; any other value stays as it is. -/
def writtenName (written : Expression) (v : Value) (m : ModeText) : Run Value := do
  match written with
  | .text _ => return .name (← nameOf v m)
  | _ => return v

/-- The name that something is to be built with. -/
def properName (holder : NameHolder) (v : Value) : Run Name := do
  match v with
  | .name n => return n
  | v => throw (.notName holder v.kindText)

def makeFunction (name : Name) (operation : Option Operation) (parameters : Value) :
    Run NamedFunction := do
  let operation ← ofOption (.notCallable name) operation
  return .make name operation (← items parameters)

/-- The set of the items of a value. -/
def setOf (kind : SetKind) (entries : Value) (m : ModeText) : Run ItemSet := do
  let m ← mode m
  ofExcept (ItemSet.ofValues (← settings) kind m (← items entries))

/-- The set that a text writes. -/
def parseSet (kind : SetKind) (text : String) (m : ModeText) : Run ItemSet := do
  let m ← mode m
  match kind with
  | .infos => return (← ofRejection (InfoSet.parse (← settings) m text)).asItems
  | .aliases => return (← ofRejection (AliasSet.parse (← settings) m text)).asItems

def parseSelector (text : String) (m : ModeText) : Run Selector := do
  let m ← mode m
  ofRejection (Selector.parse (← settings) m text)

/-- The value of an operation by itself. -/
def operationValue : Option Operation → Value
  | some o => .operation o
  | none => .int 42

end Run

namespace Expression
open Run

mutual

/-- The value of an expression. -/
def value : Expression → Run Value
  | null => return .null
  | bool b => return .bool b
  | text s => return .text s
  | list es => return .list (← values es)
  | int s => return .int (← ofOption .badNumber (Number.readInt? s))
  | double s => do settled (.double (← ofOption .badNumber (Number.readDouble? s)))
  | label l => lookup l
  | name e m => do settled (.name (← nameOf (← value e) m))
  | info token e m => do
    let n ← writtenName e (← value e) m
    let token ← value token
    settled (.item (← ofExcept (Item.makeInfo (← properName .info n) token)))
  | parsedSelector s m => do settled (.item (.selector (← parseSelector s m)))
  | selector e s m => do
    let n ← writtenName e (← value e) m
    settled (.item (.selector (Selector.make (← properName .selector n) s)))
  | .alias e target token m => do
    let n ← writtenName e (← value e) m
    let target ← value target
    let token ← value token
    settled (.item (← ofExcept (Item.makeAlias (← properName .alias n) target token)))
  | parsedSet kind s m => do settled (← parseSet kind s m).value
  | set kind es m => do settled (← setOf kind (← value es) m).value
  | function e o parameters m => do
    let n ← writtenName e (← value e) m
    let parameters ← value parameters
    settled (.item (.function (← makeFunction (← properName .function n) o parameters)))
  | operation o => return operationValue o

def values : List Expression → Run (List Value)
  | [] => return []
  | e :: es => return (← value e) :: (← values es)

end

end Expression

end FunctionCatalog
