import FunctionCatalog.AliasSet
import FunctionCatalog.InfoSet
import FunctionCatalog.Item
import FunctionCatalog.Value.Settle

/-
  FunctionCatalog: sets of items.
  A set is of one kind but may hold items of any kind. Catalogs and alias sets are such sets
  (`InfoSet.asItems`, `AliasSet.asItems`). What is looked up in a set is anything that has a name;
  what is no name and no text either is under no name of a sensitive set, and cannot be folded by an
  insensitive one.
-/

namespace FunctionCatalog

structure ItemSet where
  kind : SetKind
  set : NamedSet Item

/-- A catalog as a set of items. -/
def InfoSet.asItems (s : InfoSet) : ItemSet :=
  ⟨.infos, NamedSet.lift Item.info (fun _ => rfl) s⟩

/-- An alias set as a set of items. -/
def AliasSet.asItems (s : AliasSet) : ItemSet :=
  ⟨.aliases, NamedSet.lift Item.alias (fun _ => rfl) s⟩

/-- What a set looks up: a folded name, or something that is the name of nothing. -/
inductive LookupKey where
  | name (folded : String)
  | nothing (v : Value)

namespace LookupKey

/-- The key of a value: of its name if it has one, else of itself. -/
def ofValue (mode : CaseMode) (v : Value) : Except Failure LookupKey :=
  match v.namePart?.getD v, mode with
  | .name n, _ => .ok (.name (mode.fold n.value))
  | w, mode =>
    match w.text?, mode with
    | some s, _ => .ok (.name (mode.fold s))
    | none, .sensitive => .ok (.nothing w)
    | none, .insensitive => .error .noSuchPart

/-- The name to look up, if it can be the name of anything. -/
def name? : LookupKey → Except Failure (Option String)
  | name s => .ok (some s)
  | nothing v => if v.isKey then .ok none else .error .wrongKind

end LookupKey

namespace ItemSet

def empty (kind : SetKind) (mode : CaseMode) : ItemSet :=
  ⟨kind, NamedSet.empty mode⟩

def mode (s : ItemSet) : CaseMode := s.set.mode

def entries (s : ItemSet) : List Item := s.set.entries

def names (s : ItemSet) : List Name := s.set.names

/-- A set as a value. -/
def value (s : ItemSet) : Value :=
  .set s.kind s.set.mode s.set.entries s.set.handle

/-- The set that a value is. -/
def ofValue? : Value → Option ItemSet
  | .set kind mode entries handle =>
    (NamedSet.ofEntries? mode entries handle).map (fun s => ⟨kind, s⟩)
  | _ => none

/-- The set of some items, each brought into the mode. -/
def of (settings : Settings) (kind : SetKind) (mode : CaseMode) (items : List Item) :
    Except Failure ItemSet :=
  (Failure.ofRejection (NamedSet.of settings mode items)).map (fun t => ⟨kind, t⟩)

/-- The set of the items that some values are. -/
def ofValues (settings : Settings) (kind : SetKind) (mode : CaseMode) (vs : List Value) :
    Except Failure ItemSet :=
  (NamedSet.ofSteps Failure.rejection settings mode (vs.map Item.ofValue)).map (fun t => ⟨kind, t⟩)

/-- The entry under the name that a value is or has. -/
def lookup (s : ItemSet) (v : Value) : Except Failure (Option Item) := do
  match ← (← LookupKey.ofValue s.mode v).name? with
  | some folded => .ok (s.set.find? folded)
  | none => .ok none

def containsName (s : ItemSet) (v : Value) : Except Failure Bool :=
  (s.lookup v).map Option.isSome

/-- Whether an entry equal to a value is in the set. -/
def contains (s : ItemSet) (v : Value) : Bool :=
  match v with
  | .item i => s.set.contains i
  | _ => false

/-- A set as an object with a number, like its entries. -/
def settle (s : ItemSet) : Supply ItemSet := do
  return (ofValue? (← s.value.settle)).getD s

/-- The texts of the entries. -/
def texts (s : ItemSet) : Except Failure (List String) :=
  Failure.ofPrint (Item.texts s.kind s.entries)

/-- The text of a set, which joins the texts of its entries. -/
def text (s : ItemSet) : Except Failure String :=
  s.texts.map s.kind.join

theorem lookup_name (s : ItemSet) (n : Name) :
    s.lookup (.name n) = .ok (s.set.get? n.value) := rfl

end ItemSet

end FunctionCatalog
