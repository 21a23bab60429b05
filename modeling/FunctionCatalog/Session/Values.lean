import FunctionCatalog.Function.Call
import FunctionCatalog.Selector.Format
import FunctionCatalog.Session.Command

/-
  FunctionCatalog: commands on values, names, selectors and functions.
-/

namespace FunctionCatalog

/-- A parameter as a value. -/
def Parameter.toValue : Parameter → Value
  | text s => .text s
  | number n => .ofNumber n
  | call s _ => .item (.selector s)

/-- How two values compare, each relation with a truth value or with what is said where their kinds
do not have it. Two objects of the library also show whether they are one. -/
def Value.comparison (v w : Value) : Value :=
  let relation (r : Relation) : Value :=
    match Value.relates r v w with
    | some b => .bool b
    | none => .text Failure.wrongKind.word
  let identical := if v.isObject && w.isObject then [("is", .bool (v.identical w))] else []
  .ofFields ([("eq", .bool (v.equal w)), ("ne", .bool (!v.equal w)), ("lt", relation .lt),
    ("le", relation .le), ("gt", relation .gt), ("ge", relation .ge)] ++ identical)

/-- Settings as a value. -/
def Settings.toValue (s : Settings) : Value :=
  .ofFields [("default_case_sensitivity", .mode s.defaultMode),
    ("name_max_length", .int s.nameLimit), ("alias_token_prefix", .text s.tokenPrefix)]

/-- A call as a value. -/
def Call.toValue (c : Call) : Value :=
  .list [c.name, c.values, c.context]

/-- A failure as a value. A name that is not known needs no wording. -/
def Failure.toValue (f : Failure) : Value :=
  let message := match f with
    | .unknownName _ => []
    | f => (f.message?.toList).map (fun text => ("message", Value.text text))
  .ofFields ([("error", .text f.word)] ++ message ++ f.details)

namespace Run

/-- The index just past the name that starts at an index; a negative one counts from the end, and
the name then goes on at the start of the text. -/
def nameEnd (text : String) (start : Int) : Run Int := do
  let cs := text.toList
  if 0 ≤ start then
    return (FunctionCatalog.scanName cs start.toNat : Nat)
  else if start < -(cs.length : Int) then throw .outOfRange
  else
    let back := cs.drop (cs.length + start).toNat
    return start + ((takeName (back ++ cs)).1.length : Nat)

/-- Whether each character of a text may start a name, and whether it may stand in one. -/
def nameCharacters (text : String) : Value :=
  .list (text.toList.map (fun c => .list [.bool (isNameStart c), .bool (isNamePart c)]))

/-- An info from its text. The shape of the text is checked before the mode. -/
def parseInfo (text : String) (m : ModeText) : Run Info := do
  if (Text.words text.toList).length = 2 then
    let m ← mode m
    ofRejection (Info.parse (← settings) m text)
  else throw (.rejection (.parse (.info text)))

def name (v : Value) : Run Name := do
  match v with
  | .name n => return n
  | _ => throw .noSuchPart

/-- Values to be bound; nothing and the like binds none. -/
def boundValues (v : Value) : Run (List Value) :=
  if v.isTruthy then items v else pure []

/-- Evaluates a selector several times. The resolver notes every call and answers with its index,
but does not know some names. -/
def evaluateSelector (selector context : Value) (unknown : List String) (times : Nat) :
    Run Value := do
  let resolver : Resolver (List Call) := fun call => do
    let index ← Resolution.get List.length
    Resolution.modify (· ++ [call])
    if (call.name.valuePart?).any unknown.contains then .fail (.unknownName call.name)
    else return .outcome index
  let settings ← settings
  let step (done : List Value × List Call) (_ : Nat) :=
    let (result, memory) := Provider.evaluate resolver selector context settings ⟨0, done.2⟩
    let shown := match result with
      | .ok (.outcome k) => .ofFields [("call", .int k)]
      | .ok v => v
      | .error f => f.toValue
    (done.1 ++ [shown], memory.state)
  let (results, calls) := (List.range times).foldl step ([], [])
  return .ofFields [("results", .list results), ("calls", .list (calls.map Call.toValue))]

/-- Changes the settings, as far as they are given. -/
def configure (m : ModeText) (nameLimit : Option Int) (tokenPrefix : Option String) :
    Run Settings := do
  let old ← settings
  let new : Settings :=
    { defaultMode := ← mode m
      nameLimit := nameLimit.getD old.nameLimit
      tokenPrefix := tokenPrefix.getD old.tokenPrefix }
  modify (fun s => { s with settings := new })
  return new

end Run

end FunctionCatalog
