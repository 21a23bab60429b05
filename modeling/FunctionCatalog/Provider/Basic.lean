import FunctionCatalog.ItemSet.Basic
import FunctionCatalog.Selector.Evaluate

/-
  FunctionCatalog: the contract of providers.
  A provider has a case mode, a catalog, and answers for names and for selectors. Unless it says
  otherwise it answers a selector by evaluating it with its answers for names. It may be asked with
  any values, and fails with those that have not the parts it looks at.
-/

namespace FunctionCatalog

structure Provider (σ : Type) where
  mode : CaseMode
  infos : ItemSet
  resolveName : Resolver σ
  /-- Takes the selector and the context. -/
  resolveSelector : Value → Value → Resolution σ Value

/-- The name that a value gives in a mode: a name or its text. -/
def Name.ofValue (settings : Settings) (mode : CaseMode) (v : Value) : Except Failure Name :=
  match v with
  | .name n => Failure.ofRejection (Rejection.ofName (n.withMode settings mode))
  | v =>
    match v.text? with
    | some s => Failure.ofRejection (Rejection.ofName (Name.make settings s mode))
    | none => .error (.notNamed v.kindText)

namespace Provider

variable {σ τ : Type}

/-- Evaluates what is a selector. -/
def evaluate (resolver : Resolver σ) (selector context : Value) : Resolution σ Value :=
  match selector with
  | .item (.selector s) => s.evaluate resolver context
  | _ => .fail .noSuchPart

/-- The provider that answers selectors by its answers for names. -/
def ofNames (mode : CaseMode) (infos : ItemSet) (resolveName : Resolver σ) : Provider σ where
  mode
  infos
  resolveName
  resolveSelector := evaluate resolveName

/-- The text of what is given for a name. -/
def nameText (v : Value) : Resolution σ String :=
  .ofExcept (Failure.ofOption .noSuchPart v.valuePart?)

/-- The items of what is given for values. -/
def valueItems (v : Value) : Resolution σ (List Value) :=
  .ofExcept (Failure.ofOption .wrongKind v.items?)

/-- Resolves a name, the text of a name or a selector. A selector brings its own values. -/
def resolve (p : Provider σ) (goal values context : Value) : Resolution σ Value :=
  match goal with
  | .item (.selector s) =>
    if values.isTruthy then do
      let values ← valueItems values
      .fail (.selectorValues s values.length)
    else p.resolveSelector goal context
  | goal => do
    let settings ← Resolution.settings
    let n ← .ofExcept (Name.ofValue settings p.mode goal)
    let n ← .ofSupply n.settle
    let values ← valueItems values
    p.resolveName (.ofName n values context)

/-- A provider over a part of a larger state. -/
def zoom (get : τ → σ) (set : σ → τ → τ) (p : Provider σ) : Provider τ where
  mode := p.mode
  infos := p.infos
  resolveName call := (p.resolveName call).zoom get set
  resolveSelector s context := (p.resolveSelector s context).zoom get set

/-- Advertises nothing and resolves nothing. -/
def empty (mode : CaseMode) : Provider σ where
  mode
  infos := .empty .infos mode
  resolveName call := .fail (.unknown call.name)
  resolveSelector s _ :=
    match s.namePart? with
    | some n => .fail (.unknown n)
    | none => .fail .noSuchPart

/-- Something that has a mode but is no provider. -/
def mute (mode : CaseMode) : Provider σ where
  mode
  infos := .empty .infos mode
  resolveName _ := .fail .noSuchPart
  resolveSelector _ _ := .fail .noSuchPart

/-- Passes every call for a name on, after noting it in the state with its values as a list. What
has no items is refused before it is noted or passed on. -/
def recording (note : Call → σ → σ) (p : Provider σ) : Provider σ :=
  ofNames p.mode p.infos (fun call => do
    let values ← valueItems call.values
    Resolution.modify (note { call with values := .list values })
    p.resolveName call)

/-- Hands out the bare operation of each function. -/
def bare (p : Provider σ) : Provider σ :=
  ofNames p.mode p.infos (fun call => do
    match ← p.resolveName call with
    | .item (.function f) => pure (.operation f.operation)
    | _ => .fail .noSuchPart)

/-- What a provider hands out, under the name that was asked for. -/
def relabel (p : Provider σ) (wrapped : Name) (call : Call) : Resolution σ Value := do
  let found ← p.resolveName { call with name := .name wrapped }
  let settings ← Resolution.settings
  let relabelled ← .ofExcept (found.relabel settings call.name)
  .ofSupply relabelled.settle

end Provider

end FunctionCatalog
