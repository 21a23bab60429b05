import FunctionCatalog.ItemSet.Alias
import FunctionCatalog.ItemSet.Token
import FunctionCatalog.Session.Command

/-
  FunctionCatalog: commands on sets.
  Some commands are for one kind of set only. A few make sense for other values too: whatever has
  items has a size, and may or may not contain something.
-/

namespace FunctionCatalog

/-- Which kinds of sets have a change. -/
def SetChange.isFor : SetChange → SetKind → Bool
  | filter, kind | renameIfPresent, kind => kind == .infos
  | concatOrReplace, kind | deleteNames, kind | keepNames, kind => kind == .aliases
  | _, _ => true

/-- Which kinds of sets have an answer to a question. -/
def SetQuestion.isFor : SetQuestion → SetKind → Bool
  | tokens, kind | aliasSet, kind => kind == .infos
  | target, kind | aliasOrName, kind | claim, kind | containsNameOrAlias, kind
  | aliasNames, kind | targetNames, kind | merge, kind => kind == .aliases
  | _, _ => true

namespace ItemSet

def itemsOf (v : Value) : Except Failure (List Value) :=
  Failure.ofOption .wrongKind v.items?

/-- Changes a set that has the change. -/
def change (settings : Settings) (c : SetChange) (s : ItemSet) (args : List Value) :
    Except Failure ItemSet :=
  match c, args with
  | .concat, [v] => s.concat settings v
  | .concatAll, [v] => do s.concatAll settings (← itemsOf v)
  | .delete, [v] => s.delete settings v
  | .deleteAll, [v] => do s.deleteAll settings (← itemsOf v)
  | .replace, [old, new] => s.replace settings old new
  | .subSet, [low, high] => s.subSet settings low high
  | .headSet, [high] => s.headSet settings high
  | .tailSet, [low] => s.tailSet settings low
  | .deleteWhereNameStarts, start :: _ => s.deleteWhereNameStarts settings start
  | .deleteWhereNameStarts, [] => if s.entries.isEmpty then .ok s else .error .outOfRange
  | .filter, [v] => do s.filter settings (← itemsOf v)
  | .renameIfPresent, [v] => do s.renameIfPresent settings (← itemsOf v)
  | .concatOrReplace, [v] => s.concatOrReplace settings v
  | .deleteNames, [v] => do s.deleteNames settings (← itemsOf v)
  | .keepNames, [v] => do s.keepNames settings (← itemsOf v)
  | _, _ => .error .wrongKind

def ofItem? : Option Item → Value
  | some i => .item i
  | none => .null

/-- The entry of what an alias set is merged over: of a set, or of a record, which has none under a
name. -/
def catalogOf (v : Value) (n : Name) : Except Failure (Option Item) :=
  match v, ofValue? v with
  | _, some s => s.advertised? n
  | .record _ _, none => .ok none
  | _, none => .error .noSuchPart

/-- Answers a question that the set has an answer to. -/
def answer (settings : Settings) (q : SetQuestion) (s : ItemSet) (args : List Value) :
    Except Failure Value :=
  match q, args with
  | .names, [] => .ok (.tuple (s.names.map .name))
  | .get, [v] => (s.lookup v).map ofItem?
  | .containsName, [v] => (s.containsName v).map .bool
  | .first, [] => Failure.ofOption (.emptySet s.kind) (s.set.first?.map .item)
  | .last, [] => Failure.ofOption (.emptySet s.kind) (s.set.last?.map .item)
  | .text, [] => s.text.map .text
  | .size, _ => .ok (.int s.set.size)
  | .nonempty, _ => .ok (.bool (s.set.size != 0))
  | .display, _ => (Failure.ofPrint s.value.display).map .text
  | .contains, v :: _ => .ok (.bool (s.contains v))
  | .contains, [] => .error .outOfRange
  | .tokens, [] => s.tokens.map .tuple
  | .aliasSet, [] => (s.aliasSet settings).map value
  | .target, [v] => do return ofItem? ((← s.target? v).map .selector)
  | .aliasOrName, [v] => do
    match ← s.aliasOrName settings v with
    | some n => return .name n
    | none => return .null
  | .claim, [v] => (s.claim v).map .claim
  | .containsNameOrAlias, [v] => (s.containsName v).map .bool
  | .aliasNames, [] => do return .tuple ((← s.aliasNames).map .name)
  | .targetNames, [] => do return .tuple ((← s.targetNames).map .name)
  | .merge, [v] => (s.merge settings (catalogOf v)).map value
  | _, _ => .error .wrongKind

end ItemSet

namespace Value

/-- Whether something is in a value: among the items of a list, under the keys of a record, or as a
part of a text. -/
def contains (v w : Value) : Except Failure Bool :=
  match v with
  | .list vs | .tuple vs => .ok (vs.any (fun u => u.same w))
  | .record keys _ => if w.isKey then .ok (keys.any (fun k => k.same w)) else .error .wrongKind
  | v =>
    match v.text?, w.text? with
    | some s, some t => .ok (Text.occursIn t.toList s.toList)
    | _, _ => .error .wrongKind

/-- Whether a text stays the same object when `new` takes the place of `old` in it. -/
def keepsObject (s old new : String) : Bool :=
  !Text.occursIn old.toList s.toList || (old == new && (text old).isShared)

/-- A change of a value that is no set. Only a text has one. -/
def change (c : SetChange) (v : Value) (args : List Value) : Except Failure Answer :=
  match c, v.text?, args with
  | .replace, some s, [old, new] =>
    match old.text?, new.text? with
    | some old, some new =>
      let changed := String.ofList (Text.replaceAll old.toList new.toList s.toList)
      .ok (.changed (.text changed)
        (v.kindText == (text s).kindText && keepsObject s old new))
    | _, _ => .error .wrongKind
  | .replace, some _, _ => .error .wrongKind
  | _, _, _ => .error .noSuchPart

/-- What a value that is no set answers. -/
def answer (q : SetQuestion) (v : Value) (args : List Value) : Except Failure Value :=
  match q, v, args with
  | .size, v, _ => do
    return .int (← Failure.ofOption .wrongKind v.items?).length
  | .nonempty, v, _ => .ok (.bool v.isTruthy)
  | .display, v, _ => (Failure.ofPrint v.display).map .text
  | .contains, v, w :: _ => (v.contains w).map .bool
  | .contains, _, [] => .error .outOfRange
  | .get, .record keys values, [key] => field keys values key .null
  | .get, .record keys values, [key, other] => field keys values key other
  | .get, .record _ _, _ => .error .wrongKind
  | .text, .item i, [] => (Failure.ofPrint i.text).map .text
  | .text, .item (.function _), _ => .error .noSuchPart
  | .text, .item _, _ => .error .wrongKind
  | _, _, _ => .error .noSuchPart
where
  field (keys values : List Value) (key other : Value) : Except Failure Value :=
    if key.isKey then .ok ((find? (fun k => k.same key) keys values).getD other)
    else .error .wrongKind

end Value

namespace Run

/-- Makes another set of a set. -/
def changeSet (c : SetChange) (v : Value) (args : List Value) : Run Answer := do
  match ItemSet.ofValue? v with
  | some s =>
    if c.isFor s.kind then
      return .ofChange v (← ofExcept (s.change (← settings) c args)).value
    else throw .noSuchPart
  | none => ofExcept (v.change c args)

/-- Asks a set, or another value. -/
def askSet (q : SetQuestion) (v : Value) (args : List Value) : Run Value := do
  match ItemSet.ofValue? v with
  | some s =>
    if q.isFor s.kind then ofExcept (s.answer (← settings) q args) else throw .noSuchPart
  | none => ofExcept (v.answer q args)

end Run

end FunctionCatalog
