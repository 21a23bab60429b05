import FunctionCatalog.Example
import FunctionCatalog.Session.Expression

/-
  FunctionCatalog: the commands of a session and their answers.
-/

namespace FunctionCatalog

/-- What makes one set of another. -/
inductive SetChange where
  | concat
  | concatAll
  | delete
  | deleteAll
  | replace
  | subSet
  | headSet
  | tailSet
  | deleteWhereNameStarts
  | filter
  | renameIfPresent
  | concatOrReplace
  | deleteNames
  | keepNames
deriving DecidableEq, Repr

/-- What a set can be asked. -/
inductive SetQuestion where
  | names
  | get
  | containsName
  | first
  | last
  | text
  | size
  | nonempty
  | display
  | contains
  | tokens
  | aliasSet
  | target
  | aliasOrName
  | claim
  | containsNameOrAlias
  | aliasNames
  | targetNames
  | merge
deriving DecidableEq, Repr

/-- Data that is given as it is or by the label of a value. -/
inductive DataSource where
  | given (v : Value)
  | label (l : String)

/-- The written forms of a set. -/
inductive SetForm where
  | list
  | json
  | yaml
deriving DecidableEq, Repr

inductive Command where
  | make (v : Expression)
  | compare (a b : Expression)
  | sort (vs : Expression)
  | configure (mode : ModeText) (nameLimit : Option Int) (tokenPrefix : Option String)
  | readEnvironment (library : String) (vars : List (String × String))
  | scanName (text start : String)
  | nameCharacters (text : String)
  | asName (v : Expression) (mode : ModeText)
  | nameWithMode (name : Expression) (mode : ModeText)
  | withName (v name : Expression)
  | parseInfo (text : String) (mode : ModeText)
  | parseSet (kind : SetKind) (text : String) (mode : ModeText)
  | setOf (kind : SetKind) (entries : Expression) (mode : ModeText)
  | emptySet (kind : SetKind) (mode : ModeText)
  | changeSet (c : SetChange) (set : Expression) (args : List Expression)
  | askSet (q : SetQuestion) (set : Expression) (args : List Expression)
  | parseSelector (text : String) (mode : ModeText)
  | selectorOf (name : Expression) (valueText : String) (mode : ModeText)
  | withValueText (selector : Expression) (valueText : String)
  | withValues (selector values : Expression)
  | parameters (selector : Expression)
  | parseParameters (text : String) (mode : ModeText)
  | formatValue (v : Expression)
  | formatValues (vs : Expression)
  | evaluate (selector context : Expression) (unknown : List String) (times : String)
  | withParameters (function values : Expression)
  | call (function args : Expression)
  | relabel (function name : Expression)
  | leaf (url : String) (functions : Expression) (mode : ModeText)
  | leafOfOperations (url : String) (operations : List (String × Option Operation))
      (mode : ModeText)
  | emptyProvider (mode : ModeText)
  | exampleLeaf (batch : Example.Batch) (mode : ModeText)
  | exampleCatalog (mode : ModeText)
  | aliasView (aliases provider : Expression)
  | filteredView (provider infos : Expression)
  | renamedView (infos provider : Expression)
  | mergedView (infos provider : Expression)
  | aggregate (providers context : Expression)
  | aggregating (providers context : Expression)
  | recorder (provider : Expression)
  | bare (provider : Expression)
  | resolve (provider target : Expression) (values context : Expression)
  | resolveName (provider name values context : Expression)
  | resolveSelector (provider selector context : Expression)
  | infosOfProvider (provider : Expression)
  | aliasesOfProvider (provider : Expression)
  | membersOfProvider (provider : Expression)
  | wrappedName (provider name : Expression)
  | renamedName (provider name : Expression)
  | callsOfProvider (provider : Expression)
  | infoToData (v : Expression)
  | selectorToData (v : Expression)
  | writeSet (form : SetForm) (v : Expression)
  | infoOfData (source : DataSource)
  | selectorOfData (source : DataSource)
  | readSet (kind : SetKind) (form : SetForm) (source : DataSource)

/-- What a command answers: a value, and for a change also whether it is the very object that was
changed. -/
inductive Answer where
  | value (v : Value)
  | changed (v : Value) (same : Bool)

namespace Answer

def result : Answer → Value
  | value v => v
  | changed v _ => v

/-- The answer of a change of `old` into `new`. -/
def ofChange (old new : Value) : Answer :=
  changed new (old.identical new)

end Answer

end FunctionCatalog
