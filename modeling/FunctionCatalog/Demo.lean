import FunctionCatalog.Session.Perform

/-
  FunctionCatalog: the demonstration.
  It shows an alias view, the composed example catalog, selector evaluation and a refused
  aggregation, line by line.
-/

namespace FunctionCatalog.Demo
open Run

def rule : String := String.ofList (List.replicate 70 '=')

def heading (title : String) : List String := [rule, title, rule]

/-- Fills a text up with spaces. -/
def padded (width : Nat) (s : String) : String :=
  s ++ String.ofList (List.replicate (width - s.length) ' ')

def numeral (s : String) : Run Value :=
  return .double (← ofOption .badNumber (Number.readDouble? s))

/-- A value as it is shown by itself. -/
def shown (v : Value) : Run String :=
  ofPrint v.print

/-- What a call of a name gives. -/
def callName (p : Value) (name : String) (args : List Value) : Run Value := do
  ofExcept ((← resolve p (.text name) (.list []) .null).call args)

/-- What is said when a computation fails, if it fails as expected. -/
def refusal (expected : Failure → Bool) (x : Run Unit) : Run (List String) :=
  tryCatch (do x; return []) (fun f =>
    if expected f then return f.message?.toList else throw f)

def aliasView : Run (List String) := do
  let scenario ← exampleLeaf .scenario none
  let view ← Run.aliasView (.text Example.scenarioAliases) scenario
  let aliases ← shown (← aliasesOfProvider view)
  let wrapped ← shown scenario
  let visible ← shown view
  let called ← ofPrint (← callName view "a4" [.text "x"]).display
  let refused ← refusal (fun f => f matches .aliasArguments ..) do
    let _ ← resolve view (.text "a2") (.list [.text "unexpected"]) .null
  return heading "ALIAS VIEW" ++
    ["  Alias set:  " ++ aliases,
      "  Wrapped:    " ++ wrapped,
      "  Visible:    " ++ visible,
      "  a4('x') ->  " ++ called] ++
    refused.map ("  a2 with values -> " ++ ·) ++ [""]

/-- The line of an entry of a catalog: its name and its token. -/
def entryLine (i : Item) : Run String := do
  return "  " ++ padded 10 i.name.value ++ " " ++ (← shown (← ofExcept i.token))

def resolvedLine (catalog : Value) (text : String) : Run String := do
  let selector ← parseSelector text none
  let found ← resolve catalog (.item (.selector selector)) (.list []) .null
  return "  " ++ padded 20 text ++ " -> " ++ (← shown found)

def catalogLines (catalog : Value) (infos : ItemSet) : Run (List String) := do
  let entries ← infos.entries.mapM entryLine
  let resolved ← ["total", "round-2", "wrap(\"<\", \">\")", "shout"].mapM (resolvedLine catalog)
  let total ← callName catalog "total" [.int 1, .int 2, .int 3]
  let rounded ← callName catalog "round-2" [← numeral "3.14159"]
  let shouted ← callName catalog "shout" [.text "hello"]
  return heading "EXAMPLE CATALOG" ++ entries ++ [""] ++ resolved ++
    ["  total(1, 2, 3)       -> " ++ (← shown total),
      "  round-2(3.14159)     -> " ++ (← shown rounded),
      "  shout('hello')       -> " ++ (← shown shouted), ""]

def collisions : Run (List String) := do
  let math ← exampleLeaf .math none
  let other ← leafOfOperations "https://example.com/other/" [("abs", some .abs)] none
  let refused ← refusal (fun f => f matches .collisions _) do
    let _ ← Run.aggregate (.list [math, other]) .null
  return heading "COLLISIONS" ++ refused.map ("  " ++ ·) ++ [""]

/-- Everything that the demonstration shows. -/
def transcript : Run String := do
  let view ← aliasView
  let catalog ← exampleCatalog none
  let infos := (← held catalog).provider.infos
  let shown ← catalogLines catalog infos
  let clashes ← collisions
  let lines := view ++ shown ++ clashes ++ heading "CATALOG YAML" ++
    [Yaml.writeTexts (← ofExcept (ItemSet.textsOf infos.value))]
  return String.join (lines.map (· ++ "\n"))

end FunctionCatalog.Demo
