import FunctionCatalog.Session.Command

/-
  FunctionCatalog: commands that build providers and resolve through them.
-/

namespace FunctionCatalog.Run

/-- Adds a leaf of some values. The functions become objects in its mode first, so that it holds and
advertises these. -/
def holdLeaf (url : String) (functions : List Value) (m : CaseMode) : Run Value := do
  let functions ← ofExcept (Leaf.functionsOf (← settings) m functions)
  let functions ← ofSupply (Item.settleAll functions)
  let leaf ← ofExcept (Leaf.make (← settings) m url (functions.map .item))
  let id ← fresh
  holdAs id .basic (leaf.provider.zoom (World.keptBy id) (World.keep id)) .nothing

/-- A leaf of the functions that the items of a value are. -/
def leaf (url : String) (functions : Value) (m : ModeText) : Run Value := do
  let m ← mode m
  holdLeaf url (← items functions) m

/-- The operation of each name: the last one given, in the place of the first. -/
def lastOfEach (operations : List (String × Option Operation)) :
    List (String × Option Operation) :=
  operations.foldl put []
where
  put (seen : List (String × Option Operation)) (o : String × Option Operation) :=
    if seen.any (fun s => s.1 == o.1) then seen.map (fun s => if s.1 == o.1 then o else s)
    else seen ++ [o]

/-- A leaf of operations by name. -/
def leafOfOperations (url : String) (operations : List (String × Option Operation))
    (m : ModeText) : Run Value := do
  let m ← mode m
  let functions ← (lastOfEach operations).mapM (fun (name, operation) => do
    let name ← ofName (Name.make (← settings) name m)
    return .item (.function (← makeFunction name operation (.list []))))
  holdLeaf url functions m

/-- The one empty provider of a mode. -/
def emptyProvider (m : ModeText) : Run Value := do
  let m ← mode m
  match (← get).providers.find? (fun h => h.ref.kind == .empty && h.ref.mode == m) with
  | some h => return .provider h.ref
  | none => hold .empty (Provider.empty m) .nothing

/-- The alias set that a value is; a text is read in the mode of the provider. -/
def aliasesFor (aliases provider : Value) : Run ItemSet := do
  match aliases.text? with
  | some text =>
    let m ← ofOption .noSuchPart provider.modePart?
    let s ← ofRejection (AliasSet.parse (← settings) m text)
    ofSupply s.asItems.settle
  | none =>
    match ItemSet.ofValue? aliases with
    | some s => if s.kind = .aliases then return s else throw .noSuchPart
    | none => throw .noSuchPart

def aliasView (aliases provider : Value) : Run Value := do
  let aliases ← aliasesFor aliases provider
  let h ← held provider
  let view ← ofExcept (AliasView.make (← settings) aliases h.provider)
  hold .alias view.provider (.aliases aliases.value)

/-- A provider to be filtered: anything with a mode will do as long as it is not asked for more. -/
def filterable (v : Value) : Run (Provider World) := do
  match v with
  | .provider _ => return (← held v).provider
  | v => return .mute (← ofOption .noSuchPart v.modePart?)

def filteredView (provider infos : Value) : Run Value := do
  let _ ← items infos
  let inner ← filterable provider
  let infos ← ofOption .noSuchPart (ItemSet.ofValue? infos)
  hold .filtered (FilteredView.provider ⟨inner, infos⟩) .nothing

def renamedView (infos provider : Value) : Run Value := do
  let h ← held provider
  (RenamedView.warnings [] h.provider.infos.entries).forM warn
  let _ ← ofExcept h.provider.infos.tokened
  let view ← ofExcept (RenamedView.make (← settings) (← items infos) h.provider)
  hold .renamed view.provider (.renames view)

def mergedView (infos provider : Value) : Run Value := do
  let h ← held provider
  let view ← ofExcept (MergedView.make (← settings) (← items infos) h.provider)
  hold .merged view.provider .nothing

def member (v : Value) : Run (Member World) := do
  let h ← held v
  return ⟨h.ref.id, h.provider⟩

/-- Values without those that are an earlier one again. -/
def distinct (vs : List Value) : List Value :=
  vs.foldl (fun seen v => if seen.any (fun w => w.isOne v) then seen else seen ++ [v]) []

def aggregating (providers context : Value) : Run Value := do
  let vs ← items providers
  let members ← vs.mapM member
  let a ← ofResolution (Aggregate.make members context)
  let s ← get
  let refs := a.members.filterMap (fun m =>
    (s.providers.find? (fun h => h.ref.id == m.id)).map (·.ref))
  hold .aggregating a.provider (.members refs)

/-- Merges providers; a single one, however often it is given, is the answer itself. -/
def aggregate (providers context : Value) : Run Value := do
  match distinct (← items providers) with
  | [v] => return v
  | vs => aggregating (.list vs) context

def recorder (provider : Value) : Run Value := do
  let h ← held provider
  let id ← fresh
  holdAs id .recorder (h.provider.recording (World.note id)) .calls

def bare (provider : Value) : Run Value := do
  let h ← held provider
  hold .raw h.provider.bare .calls

/-- An example leaf. -/
def exampleLeaf (batch : Example.Batch) (m : ModeText) : Run Value :=
  leafOfOperations batch.url (batch.operations.map (fun o => (o.1, some o.2))) m

/-- The composed example: a view on each of two leaves, and both views as one. -/
def exampleCatalog (m : ModeText) : Run Value := do
  let math ← exampleLeaf .math m
  let text ← exampleLeaf .text m
  let mathView ← aliasView (.text Example.mathAliases) math
  let m ← ofOption .noSuchPart math.modePart?
  let shouting ← ofRejection (Example.shouting (← settings) m)
  let textView ← mergedView shouting.asItems.value text
  aggregate (.list [mathView, textView]) .null

def resolve (provider goal values context : Value) : Run Value := do
  let h ← held provider
  ofResolution (h.provider.resolve goal values context)

def resolveName (provider name values context : Value) : Run Value := do
  let h ← held provider
  ofResolution (h.provider.resolveName ⟨name, values, context⟩)

def resolveSelector (provider selector context : Value) : Run Value := do
  let h ← held provider
  ofResolution (h.provider.resolveSelector selector context)

/-- The catalog of a provider. -/
def infosOfProvider (provider : Value) : Run Value := do
  return (← held provider).provider.infos.value

def aliasesOfProvider (provider : Value) : Run Value := do
  match (← held provider).inside with
  | .aliases s => return s
  | _ => throw .noSuchPart

def membersOfProvider (provider : Value) : Run Value := do
  match (← held provider).inside with
  | .members ms => return .tuple (ms.map .provider)
  | _ => throw .noSuchPart

/-- The new names that a provider gives. -/
def renamesOf (provider : Value) : Run (RenamedView World) := do
  match (← held provider).inside with
  | .renames view => return view
  | _ => throw .noSuchPart

/-- The name that something finds for the text of a name. -/
def counterpart (find : String → Option Name) (name : Value) : Run Value := do
  match find (← ofOption .noSuchPart name.valuePart?) with
  | some n => return .name n
  | none => return .null

/-- The calls that a provider has passed on. -/
def callsOfProvider (provider : Value) : Run (List Call) := do
  let h ← held provider
  match h.inside with
  | .calls => return (← get).world.callsOf h.ref.id
  | _ => throw .noSuchPart

end FunctionCatalog.Run
