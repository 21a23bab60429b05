import FunctionCatalog.NamedSet.Basic

/-
  FunctionCatalog: the operations on named sets.
  Each answers the receiver itself when its entries would not change. Slices go by names folded in
  the mode of the set.
-/

namespace FunctionCatalog.NamedSet
open Entry

variable {α : Type} [Entry α] (settings : Settings) (s : NamedSet α)

def concat (e : α) : Except Rejection (NamedSet α) :=
  s.update settings (s.entries ++ [e])

def concatAll (es : List α) : Except Rejection (NamedSet α) :=
  s.update settings (s.entries ++ es)

/-- Keeps the entries that satisfy `p`. -/
def keepIf (p : α → Bool) : Except Rejection (NamedSet α) :=
  s.update settings (s.entries.filter p)

def deleteIf (p : α → Bool) : Except Rejection (NamedSet α) :=
  s.keepIf settings (fun e => !p e)

def delete (e : α) : Except Rejection (NamedSet α) :=
  s.deleteIf settings (fun x => Entry.same x e)

def deleteAll (es : List α) : Except Rejection (NamedSet α) :=
  s.deleteIf settings (fun x => es.any (Entry.same x))

/-- Puts `new` in the place of `old`, if `old` is there. -/
def replace (old new : α) : Except Rejection (NamedSet α) :=
  if s.contains old then
    s.update settings (s.entries.filter (fun x => !Entry.same x old) ++ [new])
  else .ok s

/-- The entries named from `low` up to but not including `high`, both folded. -/
def subSet (low high : String) : Except Rejection (NamedSet α) :=
  s.keepIf settings (fun x => low ≤ key x && key x < high)

def headSet (high : String) : Except Rejection (NamedSet α) :=
  s.keepIf settings (fun x => key x < high)

def tailSet (low : String) : Except Rejection (NamedSet α) :=
  s.keepIf settings (fun x => low ≤ key x)

/-- Puts `e` in the place of any entry of an equal name. -/
def concatOrReplace (e : α) : Except Rejection (NamedSet α) :=
  s.update settings (s.entries.filter (fun x => !(name x).same (name e)) ++ [e])

/-- Drops the entries with one of the names, which are folded. -/
def deleteNames (names : List String) : Except Rejection (NamedSet α) :=
  s.deleteIf settings (fun x => names.contains (key x))

/-- Keeps the entries with one of the names, which are folded. -/
def keepNames (names : List String) : Except Rejection (NamedSet α) :=
  s.deleteIf settings (fun x => !names.contains (key x))

end FunctionCatalog.NamedSet
