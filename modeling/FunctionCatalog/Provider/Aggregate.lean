import FunctionCatalog.Name.Order
import FunctionCatalog.Provider.Basic
import FunctionCatalog.Value.Order

/-
  FunctionCatalog: several providers as one.
  The catalogs of the members are scanned once. A name that is advertised twice is a collision and
  refuses the whole; otherwise every advertised name is resolved once, and calls with values go to
  the member that owns the name.
-/

namespace FunctionCatalog

variable {σ : Type}

/-- A provider among others, and which object it is. -/
structure Member (σ : Type) where
  id : Nat
  provider : Provider σ

/-- An advertised name: its entry, the member that has it and what it resolves to. -/
structure Owned (σ : Type) where
  key : String
  info : Item
  owner : Provider σ
  found : Value

structure Aggregate (σ : Type) where
  members : List (Member σ)
  mode : CaseMode
  owned : List (Owned σ)
  infos : ItemSet

namespace Aggregate

/-- The members in the order of their first appearance. -/
def distinct (members : List (Member σ)) : List (Member σ) :=
  members.foldl
    (fun seen m => if seen.any (fun n => n.id == m.id) then seen else seen ++ [m]) []

/-- One insensitive member makes the whole insensitive. -/
def modeOf (members : List (Member σ)) : CaseMode :=
  if members.all (fun m => m.provider.mode == .sensitive) then .sensitive else .insensitive

/-- Adds an element to the group of its key, a new key at the end. -/
def addTo {α : Type} (key : String) (x : α) :
    List (String × List α) → List (String × List α)
  | [] => [(key, [x])]
  | (k, xs) :: groups =>
    if k = key then (k, xs ++ [x]) :: groups else (k, xs) :: addTo key x groups

/-- What is advertised under one folded name: the name, then each entry with the member that has
it. -/
abbrev Group (σ : Type) := String × List (Item × Provider σ)

/-- Everything that is advertised, in groups of one folded name. -/
def owners (mode : CaseMode) (members : List (Member σ)) : List (Group σ) :=
  let all := members.flatMap (fun m => m.provider.infos.entries.map (fun i => (i, m.provider)))
  all.foldl (fun groups o => addTo (mode.fold o.1.name.value) o groups) []

/-- Reports the tokens of a name; a name equal to one that is there already only replaces its
tokens. -/
def report {α : Type} (name : Name) (tokens : α) : List (Name × α) → List (Name × α)
  | [] => [(name, tokens)]
  | (n, ts) :: rest =>
    if n.same name then (n, tokens) :: rest else (n, ts) :: report name tokens rest

/-- The texts among tokens, if all of them are texts. -/
def texts? (tokens : List Value) : Option (List String) :=
  tokens.mapM Value.text?

/-- Tokens in ascending order. -/
def sortTokens (tokens : List Value) : Except Failure (List Value) :=
  match texts? tokens with
  | some texts => .ok ((texts.mergeSort (· ≤ ·)).map .text)
  | none => Failure.ofOption .wrongKind (Value.sort? tokens)

/-- The groups of more than one, by the name of the first, with the tokens of all in ascending
order. They are all texts, or there is no report. -/
def collisions (groups : List (Group σ)) : Except Failure (List (Name × List String)) := do
  let named := groups.filterMap (fun g => g.2.head?.map (fun o => (o.1.name, g.2.map (·.1))))
  let clashing := (Name.sortOn (·.1) named).filter (fun g => 1 < g.2.length)
  let reported ← clashing.foldlM (fun reported g => do
    return report g.1 (← sortTokens (← g.2.mapM Item.token)) reported) []
  reported.mapM (fun r => do return (r.1, ← Failure.ofOption .wrongKind (texts? r.2)))

/-- Resolves every advertised name once, without values. -/
def resolveAll (context : Value) :
    List (Group σ) → Resolution σ (List (Owned σ))
  | [] => pure []
  | (key, (info, owner) :: _) :: groups => do
    let found ← owner.resolveName (.ofName info.name [] context)
    let rest ← resolveAll context groups
    pure (⟨key, info, owner, found⟩ :: rest)
  | (_, []) :: groups => resolveAll context groups

/-- The aggregate of members that are distinct objects. -/
def ofDistinct (members : List (Member σ)) (context : Value) : Resolution σ (Aggregate σ) :=
  if members.isEmpty then .fail .noProviders
  else do
    let mode := modeOf members
    let groups := owners mode members
    let clashing ← .ofExcept (collisions groups)
    if clashing.isEmpty then
      let owned ← resolveAll context groups
      let settings ← Resolution.settings
      let infos ← .ofExcept (ItemSet.of settings .infos mode (owned.map (·.info)))
      pure ⟨members, mode, owned, infos⟩
    else .fail (.collisions clashing)

/-- The aggregate of some members; the same object counts once. -/
def make (members : List (Member σ)) (context : Value) : Resolution σ (Aggregate σ) :=
  ofDistinct (distinct members) context

def resolveName (a : Aggregate σ) : Resolver σ := fun call => do
  let key := a.mode.fold (← Provider.nameText call.name)
  match a.owned.find? (fun o => o.key == key) with
  | none => .fail (.unknown call.name)
  | some o =>
    if call.values.isTruthy then o.owner.resolveName { call with name := .name o.info.name }
    else pure o.found

def provider (a : Aggregate σ) : Provider σ :=
  .ofNames a.mode a.infos a.resolveName

end Aggregate

/-- What merging members gives: the one member there is, or an aggregate of them all. -/
inductive Merged (σ : Type) where
  | single (m : Member σ)
  | aggregate (a : Aggregate σ)

def Merged.provider : Merged σ → Provider σ
  | .single m => m.provider
  | .aggregate a => a.provider

/-- Merges members into one provider; a single one is not wrapped. -/
def aggregate (members : List (Member σ)) (context : Value) : Resolution σ (Merged σ) :=
  match Aggregate.distinct members with
  | [] => .fail .noProviders
  | [m] => pure (.single m)
  | ms => do pure (.aggregate (← Aggregate.ofDistinct ms context))

end FunctionCatalog
