import FunctionCatalog.Encoding.Json
import FunctionCatalog.ItemSet.Basic

/-
  FunctionCatalog: infos, selectors and sets as plain data.
  A name in insensitive mode has a marker in front of it. A set is the list of the texts of its
  entries, behind a lone marker when its mode is insensitive. Data is any value; what is not of the
  right shape is refused.
-/

namespace FunctionCatalog

/-- What marks the insensitive mode. -/
def modeMarker : String := "@"

namespace Marked

def mark (mode : CaseMode) (text : String) : String :=
  match mode with
  | .sensitive => text
  | .insensitive => modeMarker ++ text

/-- A text without its marker, and the mode that the marker tells. -/
def unmark (text : String) : String × CaseMode :=
  match text.toList with
  | '@' :: rest => (String.ofList rest, .insensitive)
  | _ => (text, .sensitive)

def markList (mode : CaseMode) (texts : List String) : List String :=
  match mode with
  | .sensitive => texts
  | .insensitive => modeMarker :: texts

def isMarker (v : Value) : Bool :=
  v.text? == some modeMarker

/-- A list without its marker, and the mode that the marker tells. No other element may be one. -/
def unmarkList (v : Value) : Except Failure (List Value × CaseMode) :=
  match v with
  | .list items => do
    let (items, mode) := match items with
      | first :: rest =>
        if isMarker first then (rest, CaseMode.insensitive) else (items, CaseMode.sensitive)
      | [] => (items, CaseMode.sensitive)
    if items.any isMarker then
      .error (.strayMarker (← Failure.ofPrint (Value.list items).display))
    else .ok (items, mode)
  | v => .error (.notList v.kindText)

/-- The value of a field of a record, if the record has the field. -/
def field? (key : String) (v : Value) : Except Failure (Option Value) :=
  match v with
  | .record keys values => .ok (Value.find? (fun k => k.same (.text key)) keys values)
  | _ => .error .wrongKind

/-- The value of a field that a record must have. -/
def field (key : String) (v : Value) : Except Failure Value := do
  Failure.ofOption .missingField (← field? key v)

def textOf (v : Value) : Except Failure String :=
  Failure.ofOption .noSuchPart v.text?

/-- The name and the mode that a record tells. -/
def nameField (v : Value) : Except Failure (String × CaseMode) := do
  return unmark (← textOf (← field "name" v))

/-- The record of a name and a token, of whatever has both. -/
def ofTokened (v : Value) : Except Failure Value := do
  let i ← Item.ofValue v
  return .ofFields [("name", .text (mark i.name.mode i.name.value)), ("token", ← i.token)]

end Marked

open Marked

namespace Info

def toData (i : Info) : Value :=
  .ofFields [("name", .text (mark i.name.mode i.name.value)), ("token", .text i.token)]

end Info

namespace Item

/-- The info of a record. -/
def ofData (settings : Settings) (v : Value) : Except Failure Item := do
  let (text, mode) ← nameField v
  let name ← Failure.ofRejection (Rejection.ofName (Name.make settings text mode))
  makeInfo name (← field "token" v)

end Item

namespace Selector

def toData (s : Selector) : Value :=
  .ofFields [("name", .text (mark s.name.mode s.name.value)), ("value_text", .text s.valueText)]

/-- Reads the name and the parameter text as one selector text. -/
def ofData (settings : Settings) (v : Value) : Except Failure Selector := do
  let (text, mode) ← nameField v
  let valueText ← match ← field? "value_text" v with
    | some w => Failure.ofOption .wrongKind w.text?
    | none => .ok ""
  Failure.ofRejection (parse settings mode (text ++ valueText))

end Selector

namespace InfoSet

def toTexts (s : InfoSet) : List String :=
  markList s.mode (s.entries.map Info.text)

def ofData (settings : Settings) (v : Value) : Except Failure InfoSet := do
  let (items, mode) ← unmarkList v
  let infos ← items.mapM (fun item => do
    Failure.ofRejection (Info.parse settings mode (← textOf item)))
  Failure.ofRejection (NamedSet.of settings mode infos)

end InfoSet

namespace AliasSet

def toTexts (s : AliasSet) : List String :=
  markList s.mode (s.entries.map Alias.text)

/-- Reads the elements as one alias text. -/
def ofData (settings : Settings) (v : Value) : Except Failure AliasSet := do
  let (items, mode) ← unmarkList v
  let texts ← items.mapM (fun item => Failure.ofOption .wrongKind item.text?)
  Failure.ofRejection (parse settings mode (", ".intercalate texts))

end AliasSet

namespace ItemSet

/-- The texts that stand for the items of a value: those of all items, and a marker that the mode of
a set tells. -/
def textsOf (v : Value) : Except Failure (List String) := do
  let items ← Failure.ofOption .wrongKind v.items?
  let texts ← items.mapM (fun w => do Failure.ofPrint (← Item.ofValue w).text)
  match v with
  | .set _ mode _ _ => .ok (markList mode texts)
  | _ => .error .noSuchPart

end ItemSet

end FunctionCatalog
