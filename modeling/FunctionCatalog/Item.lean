import FunctionCatalog.Failure
import FunctionCatalog.Function.Basic
import FunctionCatalog.NamedSet.Basic
import FunctionCatalog.Text.Occurrence

/-
  FunctionCatalog: items under other names.
  Whatever has a name and can take another one is an item and can be an entry of a set. A token may
  be any value that holds proper texts; `Item.info` and `Item.alias` check it.
-/

namespace FunctionCatalog

namespace Item

/-- An item under another name; under a name like its own it is the item itself. -/
def withName (settings : Settings) (name : Name) : Item → Except Rejection Item
  | info i => .ok (.info (i.withName name))
  | infoWith n t h => .ok (if name.alike n then .infoWith n t h else .infoWith name t .loose)
  | selector s => .ok (.selector (s.withName name))
  | .alias a => (a.withName settings name).map .alias
  | aliasWith n s t h =>
    if name.alike n then .ok (.aliasWith n s t h)
    else do
      let s ← s.withMode settings name.mode
      .ok (.aliasWith name s t .loose)
  | function f => .ok (.function (f.withName name))

/-- An item with its names in another mode. -/
def withMode (settings : Settings) (mode : CaseMode) (i : Item) : Except Rejection Item := do
  let name ← Rejection.ofName (i.name.withMode settings mode)
  i.withName settings name

theorem mode_of_withName {settings : Settings} {name : Name} {i j : Item}
    (h : i.withName settings name = .ok j) : j.name.mode = name.mode := by
  cases i with
  | info i => cases h; exact Info.mode_of_withName name i
  | infoWith n t k =>
    simp only [withName] at h
    cases h
    split
    · next heq => exact (Name.mode_of_alike heq).symm
    · rfl
  | selector s => cases h; exact Selector.mode_of_withName name s
  | «alias» a =>
    cases ha : a.withName settings name with
    | error e => rw [withName, ha] at h; cases h
    | ok b =>
      rw [withName, ha] at h
      cases h
      exact Alias.mode_of_withName ha
  | aliasWith n s t k =>
    simp only [withName] at h
    split at h
    · next heq => cases h; exact (Name.mode_of_alike heq).symm
    · cases hs : s.withMode settings name.mode with
      | error e => rw [hs] at h; cases h
      | ok t => rw [hs] at h; cases h; rfl
  | function f => cases h; exact NamedFunction.mode_of_withName name f

theorem mode_of_withMode {settings : Settings} {mode : CaseMode} {i j : Item}
    (h : i.withMode settings mode = .ok j) : j.name.mode = mode := by
  unfold withMode at h
  cases hn : i.name.withMode settings mode with
  | error e => rw [hn] at h; cases h
  | ok n =>
    rw [hn] at h
    rw [mode_of_withName h]
    exact Name.mode_of_withMode hn

end Item

instance : Entry Item where
  name := Item.name
  withMode := Item.withMode
  same := Item.same
  mode_of_withMode := Item.mode_of_withMode

namespace Item

def ofValue? : Value → Option Item
  | .item i => some i
  | _ => none

/-- The item that a value is. -/
def ofValue (v : Value) : Except Failure Item :=
  Failure.ofOption .noSuchPart (ofValue? v)

/-- Whether the pieces of a token are proper texts: the first that is blank or reserved decides, or
the first that is no text. -/
def arePieces (reserved : List Char) : List Value → Except Failure Bool
  | [] => .ok true
  | v :: vs =>
    match v.text? with
    | none => .error .noSuchPart
    | some s =>
      let cs := s.toList
      if (!cs.isEmpty && Text.allBlank cs) || Text.occursIn cs reserved then .ok false
      else arePieces reserved vs

/-- Checks a token that is no text: it holds something, and all that it holds are proper texts. -/
def checkToken (reserved : List Char) (token : Value) : Except Failure Unit := do
  let proper ←
    if token.isTruthy then arePieces reserved (← Failure.ofOption .wrongKind token.items?)
    else .ok false
  if proper then .ok () else .error (.badToken (← Failure.ofPrint token.display))

/-- The info of a name and a token. -/
def makeInfo (name : Name) (token : Value) : Except Failure Item :=
  match token with
  | .text s => (Failure.ofRejection (Info.make name s)).map .info
  | token => do
    checkToken infoReserved token
    .ok (.infoWith name token .loose)

/-- The alias of a name, a target and a token, either of which may be missing. -/
def makeAlias (name : Name) (target token : Value) : Except Failure Item :=
  match target, token with
  | .null, .null => .ok (.alias (Alias.passThrough name))
  | .null, _ => .error (.rejection (.passThroughToken name.value))
  | .item (.selector s), .null =>
    (Failure.ofRejection (Alias.make name (some s) none)).map .alias
  | .item (.selector s), .text t =>
    (Failure.ofRejection (Alias.make name (some s) (some t))).map .alias
  | .item (.selector s), token => do
    let _ ← Failure.ofRejection (Alias.make name (some s) none)
    checkToken aliasReserved token
    .ok (.aliasWith name s token .loose)
  | _, _ => .error .noSuchPart

/-- The token of an info or an alias; an alias may have none. -/
def token : Item → Except Failure Value
  | info i => .ok (.text i.token)
  | infoWith _ t _ => .ok t
  | .alias a =>
    .ok (match a.token with
      | some t => .text t
      | none => .null)
  | aliasWith _ _ t _ => .ok t
  | selector _ | function _ => .error .noSuchPart

/-- The token of an item as something to look others up by. -/
def tokenKey (i : Item) : Except Failure Value := do
  let t ← i.token
  if t.isKey then .ok t else .error .wrongKind

/-- What stands behind an alias, if anything but its own name. -/
def target : Item → Except Failure (Option Selector)
  | .alias a => .ok a.target
  | aliasWith _ s _ _ => .ok (some s)
  | _ => .error .noSuchPart

/-- What kind of item refuses something that is no name. -/
def holder : Item → NameHolder
  | info _ | infoWith _ _ _ => .info
  | selector _ => .selector
  | .alias _ | aliasWith _ _ _ _ => .alias
  | function _ => .function

/-- An item under the name that a value is. A value that only has a text like a name is looked at
before it is refused: its text must differ, and an alias with a target asks for its mode. -/
def rename (settings : Settings) (v : Value) (i : Item) : Except Failure Item :=
  match v with
  | .name n => Failure.ofRejection (i.withName settings n)
  | v =>
    match v.valuePart?, i with
    | none, _ => .error .noSuchPart
    | some text, i =>
      let hasTarget := match i.target with
        | .ok t => t.isSome
        | .error _ => false
      if text = i.name.value || hasTarget then .error .noSuchPart
      else .error (.notName i.holder v.kindText)

end Item

/-- A value under another name: an item takes the new name, and an operation becomes a function. -/
def Value.relabel (settings : Settings) (v name : Value) : Except Failure Value :=
  match v, name with
  | .item i, name => (i.rename settings name).map .item
  | .operation o, .name n => .ok (.item (.function (.make n o [])))
  | _, .name n => .error (.notCallable n)
  | _, name => .error (.notName .function name.kindText)

end FunctionCatalog
