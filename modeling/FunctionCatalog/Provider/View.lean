import FunctionCatalog.ItemSet.Alias
import FunctionCatalog.ItemSet.Token
import FunctionCatalog.Provider.Basic

/-
  FunctionCatalog: views.
  A view wraps one provider and presents another catalog of it: through an alias set, as a declared
  part, under new names matched by token, or with some names replaced by token.
-/

namespace FunctionCatalog

variable {σ : Type}

/-- The wrapped provider as an alias set exposes it. -/
structure AliasView (σ : Type) where
  aliases : ItemSet
  inner : Provider σ
  infos : ItemSet

namespace AliasView

def make (settings : Settings) (aliases : ItemSet) (inner : Provider σ) :
    Except Failure (AliasView σ) := do
  let infos ← aliases.merge settings inner.infos.advertised?
  .ok ⟨aliases, inner, infos⟩

/-- An alias stands for its target and takes no values; a forwarded name is passed on; any other
name is unknown, even when the wrapped provider has it. -/
def resolveName (view : AliasView σ) : Resolver σ := fun call => do
  match ← .ofExcept (view.aliases.lookup call.name) with
  | none => .fail (.unknown call.name)
  | some entry =>
    match ← .ofExcept entry.target with
    | none => view.inner.resolveName call
    | some target =>
      if call.values.isTruthy then do
        .fail (.argumentsFor call.name (← Provider.valueItems call.values))
      else view.inner.resolveSelector (.item (.selector target)) call.context

def provider (view : AliasView σ) : Provider σ :=
  .ofNames view.inner.mode view.infos view.resolveName

end AliasView

/-- The part of the wrapped provider that a catalog declares, which need not be its own. -/
structure FilteredView (σ : Type) where
  inner : Provider σ
  infos : ItemSet

namespace FilteredView

def resolveName (view : FilteredView σ) : Resolver σ := fun call => do
  if ← .ofExcept (view.infos.containsName call.name) then view.inner.resolveName call
  else .fail (.unknown call.name)

/-- The name of a selector is checked before its parameters are evaluated. -/
def resolveSelector (view : FilteredView σ) (selector context : Value) : Resolution σ Value :=
  match selector.namePart? with
  | none => .fail .noSuchPart
  | some n => do
    if ← .ofExcept (view.infos.containsName n) then
      Provider.evaluate view.resolveName selector context
    else .fail (.unknown n)

def provider (view : FilteredView σ) : Provider σ where
  mode := view.inner.mode
  infos := view.infos
  resolveName := view.resolveName
  resolveSelector := view.resolveSelector

end FilteredView

/-- Folded names with what they stand for; the first of two entries of one name counts. -/
abbrev NameTable := List (String × Name)

namespace NameTable

def get? (t : NameTable) (key : String) : Option Name :=
  (t.find? (fun e => e.1 == key)).map (·.2)

end NameTable

/-- The names of a provider under new ones, matched by token. -/
structure RenamedView (σ : Type) where
  inner : Provider σ
  wrappedNames : NameTable
  renames : NameTable
  infos : ItemSet

namespace RenamedView

/-- An info whose token the wrapped catalog has, with the name of the first entry that has it
there. -/
def matched? (wrapped : List Tokened) (v : Value) : Except Failure (Option (Item × Name)) := do
  let info ← Tokened.ofValue v
  return (Tokened.find? wrapped info.token).map (fun w => (info.item, w.name))

/-- What is said about an entry whose token an earlier entry already has. -/
def warning (token : Value) (first later : Item) : String :=
  "Token " ++ Failure.shown token ++ " advertised by both " ++ first.name.value ++ " and " ++
    later.name.value ++ ", using " ++ first.name.value

/-- What is said about the entries of a catalog whose token an earlier one already has, up to the
first entry that has no token. -/
def warnings (seen : List Tokened) : List Item → List String
  | [] => []
  | i :: is =>
    match i.tokenKey with
    | .error _ => []
    | .ok token =>
      match Tokened.find? seen token with
      | some first => warning token first i :: warnings seen is
      | none => warnings (seen ++ [⟨token, i⟩]) is

def make (settings : Settings) (infos : List Value) (inner : Provider σ) :
    Except Failure (RenamedView σ) := do
  let wrapped ← inner.infos.tokened
  let pairs := (← infos.mapM (matched? wrapped)).filterMap id
  let fold := inner.mode.fold
  let visible ← ItemSet.of settings .infos inner.mode (pairs.map (·.1))
  .ok {
    inner
    wrappedNames := (pairs.map (fun p => (fold p.1.name.value, p.2))).reverse
    renames := pairs.map (fun p => (fold p.2.value, p.1.name))
    infos := visible }

/-- The wrapped name behind a new one. -/
def wrapped? (view : RenamedView σ) (text : String) : Option Name :=
  view.wrappedNames.get? (view.inner.mode.fold text)

/-- The first new name of a wrapped one. -/
def renamed? (view : RenamedView σ) (text : String) : Option Name :=
  view.renames.get? (view.inner.mode.fold text)

def resolveName (view : RenamedView σ) : Resolver σ := fun call => do
  match view.wrapped? (← Provider.nameText call.name) with
  | none => .fail (.unknown call.name)
  | some wrapped => view.inner.relabel wrapped call

def provider (view : RenamedView σ) : Provider σ :=
  .ofNames view.inner.mode view.infos view.resolveName

end RenamedView

/-- The wrapped catalog with some names replaced, matched by token. -/
structure MergedView (σ : Type) where
  inner : Provider σ
  wrappedNames : NameTable
  infos : ItemSet

namespace MergedView

/-- The name that an entry takes: that of the first rename with its token, else its own. -/
def newName (renames : List Tokened) (entry : Tokened) : Name :=
  match Tokened.find? renames entry.token with
  | some r => r.name
  | none => entry.item.name

/-- Only a catalog of infos can be renamed. -/
def make (settings : Settings) (renames : List Value) (inner : Provider σ) :
    Except Failure (MergedView σ) := do
  let held ← renames.mapM Tokened.ofValue
  let wrapped ← inner.infos.tokened
  match inner.infos.kind with
  | .aliases => .error .noSuchPart
  | .infos =>
    let infos ← inner.infos.renameIfPresent settings renames
    .ok {
      inner
      wrappedNames := (wrapped.map
        (fun w => (inner.mode.fold (newName held w).value, w.item.name))).reverse
      infos }

def resolveName (view : MergedView σ) : Resolver σ := fun call => do
  match view.wrappedNames.get? (view.inner.mode.fold (← Provider.nameText call.name)) with
  | none => .fail (.unknown call.name)
  | some wrapped => view.inner.relabel wrapped call

def provider (view : MergedView σ) : Provider σ :=
  .ofNames view.inner.mode view.infos view.resolveName

end MergedView

end FunctionCatalog
