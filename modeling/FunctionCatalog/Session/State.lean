import FunctionCatalog.Provider.Aggregate
import FunctionCatalog.Provider.Leaf
import FunctionCatalog.Provider.View

/-
  FunctionCatalog: the state of a session.
  A session holds the settings, the values bound to labels, the providers that were built and what
  these keep. Everything that a command did before it failed stays done.
-/

namespace FunctionCatalog

/-- Sets the value of a number. -/
def Shelf.put {α : Type} (n : Nat) (x : α) : List (Nat × α) → List (Nat × α)
  | [] => [(n, x)]
  | (m, y) :: rest => if m = n then (m, x) :: rest else (m, y) :: Shelf.put n x rest

/-- What providers keep, by their numbers: leaves what they materialized, recorders the calls they
passed on. -/
structure World where
  kept : List (Nat × List Materialization) := []
  calls : List (Nat × List Call) := []

namespace World

def keptBy (id : Nat) (w : World) : List Materialization :=
  (w.kept.lookup id).getD []

def keep (id : Nat) (ms : List Materialization) (w : World) : World :=
  { w with kept := Shelf.put id ms w.kept }

def callsOf (id : Nat) (w : World) : List Call :=
  (w.calls.lookup id).getD []

def note (id : Nat) (call : Call) (w : World) : World :=
  { w with calls := Shelf.put id (w.callsOf id ++ [call]) w.calls }

end World

/-- What a provider can be asked about beyond the contract of providers. -/
inductive Inside where
  | nothing
  | aliases (s : Value)
  | renames (view : RenamedView World)
  | members (members : List ProviderRef)
  | calls

/-- A provider of a session. -/
structure Held where
  ref : ProviderRef
  provider : Provider World
  inside : Inside

structure Session where
  settings : Settings := {}
  bindings : List (String × Value) := []
  providers : List Held := []
  world : World := {}
  /-- Warnings of the current command. -/
  warnings : List String := []
  /-- The next number for a new object. -/
  next : Nat := 0

/-- What a command does: it may change the session and may fail. -/
abbrev Run (α : Type) : Type :=
  ExceptT Failure (StateM Session) α

namespace Run

def settings : Run Settings := do
  return (← get).settings

def ofRejection {α : Type} (x : Except Rejection α) : Run α :=
  ofExcept (Failure.ofRejection x)

def ofName {α : Type} (x : Except NameError α) : Run α :=
  ofRejection (Rejection.ofName x)

def ofPrint {α : Type} (x : Except PrintFault α) : Run α :=
  ofExcept (Failure.ofPrint x)

def ofFormat {α : Type} (x : Except FormatFault α) : Run α :=
  ofExcept (x.mapError .format)

def ofOption {α : Type} (f : Failure) (x : Option α) : Run α :=
  ofExcept (Failure.ofOption f x)

/-- Hands out numbers of the session. -/
def ofSupply {α : Type} (x : Supply α) : Run α := do
  let s ← get
  let (a, next) := x.run s.next
  set { s with next }
  return a

/-- A number that no other object has. -/
def fresh : Run Nat :=
  ofSupply Supply.next

/-- Resolves over what the providers of the session keep. -/
def ofResolution {α : Type} (x : Resolution World α) : Run α := do
  let s ← get
  let (result, memory) := x s.settings ⟨s.next, s.world⟩
  set { s with next := memory.next, world := memory.state }
  ofExcept result

/-- A value whose parts are numbered objects. -/
def settled (v : Value) : Run Value :=
  ofSupply v.settle

def warn (text : String) : Run Unit :=
  modify (fun s => { s with warnings := s.warnings ++ [text] })

/-- The value bound to a label. -/
def lookup (label : String) : Run Value := do
  ofOption (.unbound label) ((← get).bindings.lookup label)

/-- The items of a value that has items. -/
def items (v : Value) : Run (List Value) :=
  ofOption .wrongKind v.items?

def item (v : Value) : Run Item :=
  ofExcept (Item.ofValue v)

def selector (v : Value) : Run Selector := do
  match v with
  | .item (.selector s) => return s
  | _ => throw .noSuchPart

def function (v : Value) : Run NamedFunction := do
  match v with
  | .item (.function f) => return f
  | _ => throw .noSuchPart

/-- The provider that a value is. -/
def held (v : Value) : Run Held := do
  match v with
  | .provider p => ofOption .noSuchPart ((← get).providers.find? (fun h => h.ref.id == p.id))
  | _ => throw .noSuchPart

/-- The text of a provider: the names that it advertises. -/
def providerText (kind : ProviderKind) (infos : ItemSet) : String :=
  match kind with
  | .empty => kind.text
  | _ => ", ".intercalate (infos.names.map (·.value))

/-- Adds a provider to the session. Its catalog becomes an object, whose entries must have texts. -/
def holdAs (id : Nat) (kind : ProviderKind) (provider : Provider World) (inside : Inside) :
    Run Value := do
  let infos ← ofSupply provider.infos.settle
  let texts ← ofPrint (infos.entries.mapM Item.print)
  let ref : ProviderRef := ⟨kind, id, provider.mode, texts, providerText kind infos⟩
  modify (fun s =>
    { s with providers := ⟨ref, { provider with infos }, inside⟩ :: s.providers })
  return .provider ref

def hold (kind : ProviderKind) (provider : Provider World) (inside : Inside) : Run Value := do
  holdAs (← fresh) kind provider inside

end Run

end FunctionCatalog
