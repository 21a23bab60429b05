import FunctionCatalog.ItemSet.Basic
import FunctionCatalog.Name.Order

/-
  FunctionCatalog: what an alias set says about names.
  `merge` is the catalog that shows through an alias set over another one.
-/

namespace FunctionCatalog.ItemSet

/-- How a set treats the name under which it has an entry or none. -/
def claimOf : Option Item → Except Failure AliasClaim
  | none => .ok .unclaimed
  | some i => do return if (← i.target).isNone then .passThrough else .alias

def claim (s : ItemSet) (v : Value) : Except Failure AliasClaim := do
  claimOf (← s.lookup v)

/-- What stands behind an alias; nothing for a name that is forwarded or not in the set. -/
def target? (s : ItemSet) (v : Value) : Except Failure (Option Selector) := do
  match ← s.lookup v with
  | none => .ok none
  | some i => i.target

/-- The names with a target of their own. -/
def aliasNames (s : ItemSet) : Except Failure (List Name) := do
  return (← s.entries.filterM (fun i => do return (← i.target).isSome)).map (·.name)

/-- The name that an alias forwards to. -/
def targetName (i : Item) : Except Failure Name := do
  match ← i.target with
  | none => .ok i.name
  | some selector => .ok selector.name

/-- Every name that the set forwards to, ascending, each once. -/
def targetNames (s : ItemSet) : Except Failure (List Name) := do
  let fresh (names : List Name) (n : Name) : List Name :=
    if names.any (fun m => s.set.fold m.value == s.set.fold n.value) then names else names ++ [n]
  return Name.sortOn id ((← s.entries.mapM targetName).foldl fresh [])

/-- The name of a value in the mode of the set. -/
def nameInMode (settings : Settings) (s : ItemSet) (v : Value) : Except Failure Name :=
  match v with
  | .name n => Failure.ofRejection (Rejection.ofName (n.withMode settings s.mode))
  | v =>
    match v.text? with
    | some text => Failure.ofRejection (Rejection.ofName (Name.make settings text s.mode))
    | none => .error (.nameNotText v.kindText)

/-- The name itself, unless it is an alias for something else. -/
def aliasOrName (settings : Settings) (s : ItemSet) (v : Value) : Except Failure (Option Name) := do
  match ← s.target? v with
  | some _ => .ok none
  | none => return some (← s.nameInMode settings v)

/-- The entry of a catalog under a name. -/
def advertised? (s : ItemSet) (n : Name) : Except Failure (Option Item) :=
  .ok (s.set.get? n.value)

/-- What an alias shows of a catalog, which is given by its entries. A forwarded name shows the
entry it has there, if any. Any other alias is always shown, with its own token, else the token of
its target, else one made from its name. -/
def shown? (settings : Settings) (catalog : Name → Except Failure (Option Item)) (i : Item) :
    Except Failure (Option Item) := do
  match ← i.target with
  | none => catalog i.name
  | some selector =>
    let token ← match ← i.token with
      | .null =>
        match ← catalog selector.name with
        | some found => found.token
        | none => .ok (.text (settings.tokenPrefix ++ i.name.value))
      | token => .ok token
    return some (← Item.makeInfo i.name token)

/-- The catalog that shows through an alias set over another catalog. -/
def merge (settings : Settings) (s : ItemSet) (catalog : Name → Except Failure (Option Item)) :
    Except Failure ItemSet := do
  let shown ← s.entries.mapM (shown? settings catalog)
  of settings .infos s.mode (shown.filterMap id)

end FunctionCatalog.ItemSet
