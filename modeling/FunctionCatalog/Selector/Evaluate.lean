import FunctionCatalog.Provider.Resolution
import FunctionCatalog.Selector.Parse

/-
  FunctionCatalog: evaluating selectors.
  The parameters of a selector are evaluated from left to right, a nested selector by evaluating it
  in turn; then the resolver is asked for the selector's name with the values. The text of a nested
  selector is read when its turn comes.
-/

namespace FunctionCatalog

/-- A call of a resolver: for which name, with which values and in which context. Each of these may
be any value. -/
structure Call where
  name : Value
  values : Value
  context : Value

/-- A call for a name, with a list of values. -/
def Call.ofName (n : Name) (values : List Value) (context : Value) : Call :=
  ⟨.name n, .list values, context⟩

/-- Answers calls. -/
abbrev Resolver (σ : Type) : Type :=
  Call → Resolution σ Value

namespace Selector

variable {σ : Type}

def evaluate (resolver : Resolver σ) (context : Value) (s : Selector) : Resolution σ Value :=
  fun settings state =>
    match _h : s.parameters settings with
    | .error e => (.error (.rejection e), state)
    | .ok ps =>
      let value : { p // p ∈ ps } → Resolution σ Value
        | ⟨.text t, _⟩ => pure (.text t)
        | ⟨.number n, _⟩ => pure (.ofNumber n)
        | ⟨.call inner _, _hp⟩ => evaluate resolver context inner
      let answer : Resolution σ Value := do
        resolver (.ofName s.name (← ps.attach.mapM value) context)
      answer settings state
termination_by s.valueText.toList.length
decreasing_by exact shorterThan_of_mem_parameters _h _ _hp

end Selector

end FunctionCatalog
