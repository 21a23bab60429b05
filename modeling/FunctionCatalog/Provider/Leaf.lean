import FunctionCatalog.Name.Order
import FunctionCatalog.Provider.Basic

/-
  FunctionCatalog: leaf providers.
  A leaf holds a fixed batch of functions and advertises each with a token under one base. The
  functions that it makes by binding values are materializations; those whose values can be part of
  a key are kept, and the same key gets the same object again. Any item may stand for a function as
  long as no values are bound to it.
-/

namespace FunctionCatalog

/-- A function that a leaf made for a name and values. -/
structure Materialization where
  key : String
  values : List Value
  function : NamedFunction

structure Leaf where
  mode : CaseMode
  functions : List (String × Item)
  infos : InfoSet

namespace Leaf

/-- The base of tokens ends in a slash. -/
def base (url : String) : String :=
  if url.toList.getLast? = some '/' then url else url ++ "/"

/-- The names that come a second time and later, with one entry for each time. -/
def repeated : List Name → List Name → List Name
  | _, [] => []
  | seen, n :: ns =>
    if seen.any (fun m => m.key == n.key) then n :: repeated seen ns
    else repeated (seen ++ [n]) ns

/-- What a leaf advertises for a name. -/
def info (url : String) (n : Name) : Except Rejection Info :=
  Info.make n (base url ++ n.value)

/-- Some values as the functions of a leaf, all in one mode; there must be any. -/
def functionsOf (settings : Settings) (mode : CaseMode) (functions : List Value) :
    Except Failure (List Item) :=
  if functions.isEmpty then .error .noFunctions
  else functions.mapM (fun v => do
    Failure.ofRejection ((← Item.ofValue v).withMode settings mode))

/-- A leaf of some functions; two of one name are refused. -/
def make (settings : Settings) (mode : CaseMode) (url : String) (functions : List Value) :
    Except Failure Leaf := do
  let functions ← functionsOf settings mode functions
  match repeated [] (functions.map (·.name)) with
  | [] =>
    let infos ← Failure.ofRejection (functions.mapM (fun f => info url f.name))
    let infos ← Failure.ofRejection (NamedSet.of settings mode infos)
    .ok ⟨mode, functions.map (fun f => (f.name.key, f)), infos⟩
  | names => .error (.rejection (.duplicateNames (Name.sortOn id names)))

/-- The function under a folded name. -/
def function? (leaf : Leaf) (key : String) : Option Item :=
  (leaf.functions.find? (fun f => f.1 == key)).map (·.2)

/-- Binds values to the function `f`. The function is kept under the folded name and the values,
unless the values cannot be part of a key. -/
def materialize (f : NamedFunction) (key : String) (values : List Value) :
    Resolution (List Materialization) NamedFunction :=
  fun _ memory =>
    if Value.allKeys values then
      match memory.state.find? (fun m => m.key == key && Value.allAgree m.values values) with
      | some m => (.ok m.function, memory)
      | none =>
        let (g, next) := (f.withParameters values).settle.run memory.next
        (.ok g, ⟨next, memory.state ++ [⟨key, values, g⟩]⟩)
    else
      let (g, next) := (f.withParameters values).settle.run memory.next
      (.ok g, { memory with next })

/-- The function of a name with values bound to it. -/
def resolveName (leaf : Leaf) : Resolver (List Materialization) := fun call => do
  let key := leaf.mode.fold (← Provider.nameText call.name)
  match leaf.function? key with
  | none => .fail (.unknown call.name)
  | some item =>
    if call.values.isTruthy then do
      let values ← Provider.valueItems call.values
      match item with
      | .function f => return .item (.function (← materialize f key values))
      | _ => .fail .noSuchPart
    else return .item item

/-- A leaf as a provider; its state is what it keeps. -/
def provider (leaf : Leaf) : Provider (List Materialization) :=
  .ofNames leaf.mode leaf.infos.asItems leaf.resolveName

end Leaf

end FunctionCatalog
