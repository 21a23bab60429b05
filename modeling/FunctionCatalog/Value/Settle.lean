import FunctionCatalog.Value.Basic

/-
  FunctionCatalog: numbering objects.
  `Value.settle` gives every object in a value that has no number yet a number of its own, and so it
  does with every NaN that has just been worked out.
-/

namespace FunctionCatalog

/-- A NaN that is told apart from all others. -/
def Binary64.settle (x : Binary64) : Supply Binary64 :=
  if x = .nan 0 then do return .nan ((← Supply.next) + 1) else return x

mutual

def Value.settle : Value → Supply Value
  | .double x => do return .double (← x.settle)
  | .list vs => do return .list (← Value.settleAll vs)
  | .tuple vs => do return .tuple (← Value.settleAll vs)
  | .record ks vs => do return .record (← Value.settleAll ks) (← Value.settleAll vs)
  | .name n => do return .name (← n.settle)
  | .item i => do return .item (← Item.settle i)
  | .set kind mode es h => do return .set kind mode (← Item.settleAll es) (← h.settle)
  | v => return v

def Value.settleAll : List Value → Supply (List Value)
  | [] => return []
  | v :: vs => do return (← Value.settle v) :: (← Value.settleAll vs)

def Item.settle : Item → Supply Item
  | .info i => do return .info (← i.settle)
  | .infoWith n t h => do return .infoWith (← n.settle) (← Value.settle t) (← h.settle)
  | .selector s => do return .selector (← s.settle)
  | .alias a => do return .alias (← a.settle)
  | .aliasWith n s t h => do
    return .aliasWith (← n.settle) (← s.settle) (← Value.settle t) (← h.settle)
  | .function f => do return .function (← NamedFunction.settle f)

def Item.settleAll : List Item → Supply (List Item)
  | [] => return []
  | i :: is => do return (← Item.settle i) :: (← Item.settleAll is)

def NamedFunction.settle : NamedFunction → Supply NamedFunction
  | ⟨n, o, vs, h⟩ => do return ⟨← n.settle, o, ← Value.settleAll vs, ← h.settle⟩

end

end FunctionCatalog
