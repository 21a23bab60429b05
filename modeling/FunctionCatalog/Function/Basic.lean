import FunctionCatalog.Value.Equality

/-
  FunctionCatalog: named functions.
  A changed function is a new object, so its handle is loose; an unchanged one is the object it was.
-/

namespace FunctionCatalog.NamedFunction

/-- The function of an operation under a name, with values bound to it. -/
def make (name : Name) (operation : Operation) (parameters : List Value) : NamedFunction :=
  ⟨name, operation, parameters, .loose⟩

def withName (name : Name) (f : NamedFunction) : NamedFunction :=
  if name.alike f.name then f else { f with name, handle := .loose }

/-- Binds other values; if they are the same as the bound ones, these stay. -/
def withParameters (parameters : List Value) (f : NamedFunction) : NamedFunction :=
  if Value.allSame parameters f.parameters then f
  else { f with parameters, handle := .loose }

theorem mode_of_withName (name : Name) (f : NamedFunction) :
    (f.withName name).name.mode = name.mode := by
  unfold withName
  split
  · next h => exact (Name.mode_of_alike h).symm
  · rfl

end FunctionCatalog.NamedFunction
