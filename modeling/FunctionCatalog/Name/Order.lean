import FunctionCatalog.Name.Basic
import FunctionCatalog.Sorting.Runs

/-
  FunctionCatalog: lists in the order of their names.
  Names of one mode are ordered by their folded forms, so there is one stable way to sort them.
  Names of several modes need not be in any order at all; then sorting goes by runs.
-/

namespace FunctionCatalog.Name

/-- Whether all names of a list compare in one mode. -/
def haveOneMode : List Name → Bool
  | [] => true
  | n :: ns => ns.all (fun m => m.mode == n.mode)

/-- Sorts by names; what has equal names stays in its order. -/
def sortOn {α : Type} (name : α → Name) (xs : List α) : List α :=
  if haveOneMode (xs.map name) then
    xs.mergeSort (fun a b => (name a).key ≤ (name b).key)
  else Sorting.sortBy (fun a b => (name a).before (name b)) xs

end FunctionCatalog.Name
