import FunctionCatalog.Session.Documents
import FunctionCatalog.Session.Providers
import FunctionCatalog.Session.Sets
import FunctionCatalog.Session.Values
import FunctionCatalog.Settings.Environment

/-
  FunctionCatalog: carrying commands out.
  `Session.run` carries one command out. A command that fails answers its failure and leaves the
  session as it is by then.
-/

namespace FunctionCatalog

namespace Command
open Run

/-- The answer that an item is. -/
def item (i : Item) : Answer :=
  .value (.item i)

/-- Carries a command out. Whatever is changed is looked at before what it is to be changed with. -/
def run : Command → Run Answer
  | make e => return .value (← e.value)
  | compare a b => do
    let v ← a.value
    return .value (v.comparison (← b.value))
  | sort e => do
    return .value (.list (← ofOption .wrongKind (Value.sort? (← items (← e.value)))))
  | configure m limit tokens => return .value (← Run.configure m limit tokens).toValue
  | readEnvironment library vars => do
    unless vars.all Settings.isVariable do throw .badVariable
    return .value (← ofOption .badEnvironment (Settings.ofEnvironment library vars)).toValue
  | scanName text start => do
    return .value (.int (← nameEnd text (← ofOption .badNumber (Number.readInt? start))))
  | nameCharacters text => return .value (Run.nameCharacters text)
  | asName e m => do
    let v ← e.value
    let m ← mode m
    return .value (.name (← ofExcept (Name.ofValue (← Run.settings) m v)))
  | nameWithMode e m => do
    let v ← e.value
    let n ← Run.name v
    let m ← ofOption .unknownMode (m.bind CaseMode.ofText?)
    return .ofChange v (.name (← ofName (n.withMode (← Run.settings) m)))
  | withName e n => do
    let v ← e.value
    let i ← Run.item v
    return .ofChange v (.item (← ofExcept (i.rename (← Run.settings) (← n.value))))
  | parseInfo text m => return item (.info (← Run.parseInfo text m))
  | parseSet kind text m => return .value (← Run.parseSet kind text m).value
  | setOf kind e m => return .value (← Run.setOf kind (← e.value) m).value
  | emptySet kind m => return .value (ItemSet.empty kind (← mode m)).value
  | changeSet c e args => do
    let v ← e.value
    Run.changeSet c v (← Expression.values args)
  | askSet q e args => do
    let v ← e.value
    return .value (← Run.askSet q v (← Expression.values args))
  | parseSelector text m => return item (.selector (← Run.parseSelector text m))
  | selectorOf e valueText m => do
    let n ← match ← e.value with
      | .name n => pure n
      | v => nameOf v m
    return item (.selector (Selector.make n valueText))
  | withValueText e valueText => do
    let v ← e.value
    let s ← selector v
    return .ofChange v (.item (.selector (s.withValueText valueText)))
  | withValues e vs => do
    let v ← e.value
    let s ← selector v
    let values ← boundValues (← vs.value)
    return .ofChange v (.item (.selector (← ofFormat (s.withValues values))))
  | parameters e => do
    let s ← selector (← e.value)
    return .value (.list ((← ofRejection (s.parameters (← Run.settings))).map Parameter.toValue))
  | parseParameters text m => do
    let m ← mode (some (m.getD CaseMode.sensitive.text))
    return .value (.list
      ((← ofRejection (Parameter.parse (← Run.settings) m text)).map Parameter.toValue))
  | formatValue e => return .value (.text (← ofFormat (← e.value).format))
  | formatValues e => return .value (.text (← ofFormat (Value.formatAll (← items (← e.value)))))
  | evaluate e context unknown times => do
    let v ← e.value
    let context ← context.value
    let times ← ofOption .badNumber (Number.readInt? times)
    return .value (← evaluateSelector v context unknown times.toNat)
  | withParameters e vs => do
    let v ← e.value
    let f ← function v
    let values ← items (← vs.value)
    return .ofChange v (.item (.function (f.withParameters values)))
  | call e args => do
    let f ← e.value
    let args ← items (← args.value)
    return .value (← ofExcept (f.call args))
  | relabel e n => do
    let v ← e.value
    return .value (← ofExcept (v.relabel (← Run.settings) (← n.value)))
  | leaf url e m => do
    let functions ← e.value
    return .value (← Run.leaf url functions m)
  | leafOfOperations url operations m => return .value (← Run.leafOfOperations url operations m)
  | emptyProvider m => return .value (← Run.emptyProvider m)
  | exampleLeaf batch m => return .value (← Run.exampleLeaf batch m)
  | exampleCatalog m => return .value (← Run.exampleCatalog m)
  | aliasView a p => do
    let aliases ← a.value
    return .value (← Run.aliasView aliases (← p.value))
  | filteredView p i => do
    let provider ← p.value
    return .value (← Run.filteredView provider (← i.value))
  | renamedView i p => do
    let infos ← i.value
    return .value (← Run.renamedView infos (← p.value))
  | mergedView i p => do
    let infos ← i.value
    return .value (← Run.mergedView infos (← p.value))
  | aggregate ps context => do
    let providers ← ps.value
    return .value (← Run.aggregate providers (← context.value))
  | aggregating ps context => do
    let providers ← ps.value
    return .value (← Run.aggregating providers (← context.value))
  | recorder p => return .value (← Run.recorder (← p.value))
  | bare p => return .value (← Run.bare (← p.value))
  | resolve p target values context => do
    let provider ← p.value
    let target ← target.value
    let values ← values.value
    return .value (← Run.resolve provider target values (← context.value))
  | resolveName p n values context => do
    let provider ← p.value
    let name ← n.value
    let values ← values.value
    return .value (← Run.resolveName provider name values (← context.value))
  | resolveSelector p s context => do
    let provider ← p.value
    let selector ← s.value
    return .value (← Run.resolveSelector provider selector (← context.value))
  | infosOfProvider p => return .value (← Run.infosOfProvider (← p.value))
  | aliasesOfProvider p => return .value (← Run.aliasesOfProvider (← p.value))
  | membersOfProvider p => return .value (← Run.membersOfProvider (← p.value))
  | wrappedName p n => do
    let view ← renamesOf (← p.value)
    return .value (← counterpart view.wrapped? (← n.value))
  | renamedName p n => do
    let view ← renamesOf (← p.value)
    return .value (← counterpart view.renamed? (← n.value))
  | callsOfProvider p => do
    return .value (.list ((← Run.callsOfProvider (← p.value)).map Call.toValue))
  | infoToData e => return .value (← ofExcept (Marked.ofTokened (← e.value)))
  | selectorToData e => return .value (← selector (← e.value)).toData
  | writeSet form e => return .value (writeTexts form (← ofExcept (ItemSet.textsOf (← e.value))))
  | infoOfData source => return item (← ofExcept (Item.ofData (← Run.settings) (← dataOf source)))
  | selectorOfData source =>
    return item (.selector (← ofExcept (Selector.ofData (← Run.settings) (← dataOf source))))
  | readSet kind form source =>
    return .value (← Run.readSet kind (← readForm form (← dataOf source))).value

end Command

/-- What comes of a command: an answer or a failure, and the warnings on the way. -/
structure Outcome where
  result : Except Failure Answer
  warnings : List String

namespace Session

/-- The answer of a command as numbered objects, if all of it can be written out. -/
def answerTo (command : Command) : Run Answer := do
  let answer ← match ← command.run with
    | .value v => do pure (Answer.value (← Run.settled v))
    | .changed v same => do pure (Answer.changed (← Run.settled v) same)
  Run.ofPrint answer.result.writable
  return answer

/-- Carries a command out and binds the value that it answers to a label, if there is one. -/
def run (label : Option String) (command : Command) (s : Session) : Outcome × Session :=
  let (result, s) := (answerTo command).run.run { s with warnings := [] }
  let s := match result, label with
    | .ok answer, some l => { s with bindings := (l, answer.result) :: s.bindings }
    | _, _ => s
  (⟨result, s.warnings⟩, s)

end Session

end FunctionCatalog
