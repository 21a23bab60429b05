import FunctionCatalog.ItemSet.Basic

/-
  FunctionCatalog: changing sets of items.
  Each change answers the receiver itself when its entries would not change. An argument may be any
  value; where it is an item the change is the one of `NamedSet`. Entries are worked out one by one,
  so the first that is no item fails after whatever comes before it.
-/

namespace FunctionCatalog.ItemSet

variable (settings : Settings) (s : ItemSet)

/-- The same kind of set with other entries. -/
def ofChange (x : Except Rejection (NamedSet Item)) : Except Failure ItemSet :=
  (Failure.ofRejection x).map (fun t => { s with set := t })

/-- Other entries that are worked out one by one. -/
def updateSteps (steps : List (Except Failure Item)) : Except Failure ItemSet :=
  (s.set.updateSteps Failure.rejection settings steps).map (fun t => { s with set := t })

def concat (v : Value) : Except Failure ItemSet := do
  s.ofChange (s.set.concat settings (← Item.ofValue v))

def concatAll (vs : List Value) : Except Failure ItemSet :=
  match vs.mapM Item.ofValue? with
  | some items => s.ofChange (s.set.concatAll settings items)
  | none => s.updateSteps settings (s.entries.map .ok ++ vs.map Item.ofValue)

def delete (v : Value) : Except Failure ItemSet :=
  match v with
  | .item i => s.ofChange (s.set.delete settings i)
  | _ => .ok s

def deleteAll (vs : List Value) : Except Failure ItemSet :=
  s.ofChange (s.set.deleteAll settings (vs.filterMap Item.ofValue?))

/-- Puts `new` in the place of `old`, if `old` is there. -/
def replace (old new : Value) : Except Failure ItemSet :=
  match old with
  | .item i =>
    if s.set.contains i then do s.ofChange (s.set.replace settings i (← Item.ofValue new))
    else .ok s
  | _ => .ok s

/-- Puts an item in the place of any entry of an equal name. -/
def concatOrReplace (v : Value) : Except Failure ItemSet := do
  s.ofChange (s.set.concatOrReplace settings (← Item.ofValue v))

/-- What a slice is at a bound that is a name; another bound compares with no name, which shows only
where there is something to compare. -/
def atBound (k : LookupKey) (idle : Bool) (slice : String → Except Failure ItemSet)
    (rest : ItemSet) : Except Failure ItemSet :=
  match k with
  | .name folded => slice folded
  | .nothing _ => if idle then .ok rest else .error .wrongKind

def headSet (high : Value) : Except Failure ItemSet := do
  atBound (← LookupKey.ofValue s.mode high) s.entries.isEmpty
    (fun high => s.ofChange (s.set.headSet settings high)) s

def tailSet (low : Value) : Except Failure ItemSet := do
  atBound (← LookupKey.ofValue s.mode low) s.entries.isEmpty
    (fun low => s.ofChange (s.set.tailSet settings low)) s

/-- The entries from `low` up to but not including `high`. The upper bound is looked at only where
some entry reaches the lower one. -/
def subSet (low high : Value) : Except Failure ItemSet := do
  let low ← LookupKey.ofValue s.mode low
  let high ← LookupKey.ofValue s.mode high
  atBound low s.entries.isEmpty
    (fun low =>
      atBound high (s.entries.all (fun e => Entry.key e < low))
        (fun high => s.ofChange (s.set.subSet settings low high)) { s with set := .empty s.mode })
    s

/-- Whether a name starts with a text, or with the first of several texts that it starts with. -/
def nameStarts (start : Value) (i : Item) : Except Failure Bool :=
  match start with
  | .tuple vs => anyOf vs
  | v => one v
where
  one (v : Value) : Except Failure Bool :=
    match v.text? with
    | some s => .ok (s.toList.isPrefixOf i.name.value.toList)
    | none => .error .wrongKind
  anyOf : List Value → Except Failure Bool
    | [] => .ok false
    | v :: vs => do if ← one v then .ok true else anyOf vs

/-- Drops the entries whose names start so. -/
def deleteWhereNameStarts (start : Value) : Except Failure ItemSet := do
  let kept ← s.entries.filterM (fun i => do return !(← nameStarts start i))
  s.ofChange (s.set.update settings kept)

/-- The folded names that some values are or have. -/
def namesOf (vs : List Value) : Except Failure (List String) := do
  let keys ← vs.mapM (fun v => do (← LookupKey.ofValue s.mode v).name?)
  return keys.filterMap id

/-- Drops the entries with one of the names. -/
def deleteNames (vs : List Value) : Except Failure ItemSet := do
  s.ofChange (s.set.deleteNames settings (← s.namesOf vs))

/-- Keeps the entries with one of the names. -/
def keepNames (vs : List Value) : Except Failure ItemSet := do
  s.ofChange (s.set.keepNames settings (← s.namesOf vs))

end FunctionCatalog.ItemSet
