/-
  FunctionCatalog: which object a thing is.
  Two equal things may be two objects, and some answers tell them apart. A handle is a number that
  no other object has. What has just been built is loose: it has no number yet and is the same
  object as nothing. `Handle.settle` hands out the numbers one after another.
-/

namespace FunctionCatalog

inductive Handle where
  | loose
  | object (n : Nat)
deriving DecidableEq, Repr

/-- Hands out numbers: the state is the next one. -/
abbrev Supply := StateM Nat

/-- The next number. -/
def Supply.next : Supply Nat :=
  modifyGet (fun n => (n, n + 1))

namespace Handle

/-- Whether two handles are of one object. -/
def same : Handle → Handle → Bool
  | .object m, .object n => m == n
  | _, _ => false

/-- Gives what is loose the next number. -/
def settle : Handle → Supply Handle
  | .loose => do return .object (← Supply.next)
  | .object n => return .object n

theorem same_object (n : Nat) : same (.object n) (.object n) = true := by
  simp [same]

theorem eq_of_same {h k : Handle} (hk : h.same k = true) : h = k := by
  cases h <;> cases k <;> simp_all [same]

end Handle

end FunctionCatalog
