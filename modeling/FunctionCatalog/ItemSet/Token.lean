import FunctionCatalog.ItemSet.Change
import FunctionCatalog.Value.Order

/-
  FunctionCatalog: sets by their tokens.
  Filtering and renaming match entries with other items by token. Anything that holds infos or
  aliases can be matched with.
-/

namespace FunctionCatalog

/-- An item with the token by which it is matched. -/
structure Tokened where
  token : Value
  item : Item

namespace Tokened

/-- An item that has a token. -/
def ofItem (i : Item) : Except Failure Tokened := do
  return ⟨← i.tokenKey, i⟩

def ofValue (v : Value) : Except Failure Tokened := do
  ofItem (← Item.ofValue v)

/-- The first of some items with a token, which must be of the same kind. -/
def find? (held : List Tokened) (token : Value) : Option Item :=
  (held.find? (fun t => t.token.agrees token)).map (·.item)

end Tokened

namespace ItemSet

/-- The entries with their tokens. -/
def tokened (s : ItemSet) : Except Failure (List Tokened) :=
  s.entries.mapM Tokened.ofItem

/-- The values without repetitions; values of two kinds are told apart. -/
def distinct (vs : List Value) : List Value :=
  vs.foldl (fun seen v => if seen.any (fun w => w.agrees v) then seen else seen ++ [v]) []

/-- The tokens in ascending order, each once. -/
def tokens (s : ItemSet) : Except Failure (List Value) := do
  let tokens := distinct ((← s.tokened).map (·.token))
  match tokens.mapM (fun t => match t with | .text s => some s | _ => none) with
  | some texts => .ok ((sortDistinctBy id texts).map .text)
  | none => Failure.ofOption .wrongKind (Value.sort? tokens)

/-- Keeps the entries whose token one of the items has too. -/
def filter (settings : Settings) (s : ItemSet) (others : List Value) : Except Failure ItemSet := do
  let held ← others.mapM Tokened.ofValue
  let kept ← s.entries.filterM (fun i => do
    return (Tokened.find? held (← i.tokenKey)).isSome)
  s.ofChange (s.set.update settings kept)

/-- Replaces every entry whose token one of the items has by the first such item. -/
def renameIfPresent (settings : Settings) (s : ItemSet) (renames : List Value) :
    Except Failure ItemSet := do
  let held ← renames.mapM Tokened.ofValue
  s.updateSteps settings (s.entries.map (fun i => do
    return (Tokened.find? held (← i.tokenKey)).getD i))

/-- Every name of a set as one that is forwarded. -/
def aliasSet (settings : Settings) (s : ItemSet) : Except Failure ItemSet :=
  of settings .aliases s.mode (s.entries.map (fun i => .alias (.passThrough i.name)))

end ItemSet

end FunctionCatalog
