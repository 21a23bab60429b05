import FunctionCatalog.Provider.Aggregate
import FunctionCatalog.Provider.Leaf
import FunctionCatalog.Provider.View

/-
  FunctionCatalog: example providers.
  Two small leaf catalogs, the three functions that the alias view is shown with, and a catalog that
  is composed of views on the first two.
-/

namespace FunctionCatalog.Example

def mathUrl : String := "https://example.com/functions/math/"
def textUrl : String := "https://example.com/functions/text/"
def scenarioUrl : String := "https://example.com/functions/"

/-- The aliases that the scenario is shown with. -/
def scenarioAliases : String := "f1, a2 f2, a4 f3(\"V\") https://example.com/functions/a4"

/-- The aliases of the composed catalog. -/
def mathAliases : String :=
  "abs, max, min, total sum, round-2 round(2) https://example.com/functions/math/round-2"

/-- Leaf catalogs: a base of tokens, and operations by name. -/
inductive Batch where
  | math
  | text
  | scenario
deriving DecidableEq, Repr

def Batch.url : Batch → String
  | math => mathUrl
  | text => textUrl
  | scenario => scenarioUrl

def Batch.operations : Batch → List (String × Operation)
  | math => [("abs", .abs), ("max", .max), ("min", .min), ("round", .roundTo), ("sum", .total)]
  | text =>
    [("concat", .concat), ("lower", .lower), ("repeat", .repeatText), ("upper", .upper),
      ("wrap", .wrap)]
  | scenario => [("f1", .upper), ("f2", .lower), ("f3", .concat)]

/-- The renaming of the composed catalog: the function that turns texts to upper case shouts. -/
def shouting (settings : Settings) (mode : CaseMode) : Except Rejection InfoSet := do
  let name ← Rejection.ofName (Name.make settings "shout" mode)
  NamedSet.of settings mode [← Info.make name (textUrl ++ "upper")]

end FunctionCatalog.Example
