import FunctionCatalog.Alias.Parse
import FunctionCatalog.NamedSet.Algebra
import FunctionCatalog.NamedSet.Kind

/-
  FunctionCatalog: alias sets.
  An alias set says which names a view exposes and what stands behind them. Its text declares every
  name once.
-/

namespace FunctionCatalog

instance : Entry Alias where
  name := Alias.name
  withMode := Alias.withMode
  same := Alias.same
  mode_of_withMode := Alias.mode_of_withMode

abbrev AliasSet := NamedSet Alias

namespace AliasSet
open Entry

/-- An entry that has been read: its folded name, its text and its alias. -/
structure Declared where
  key : String
  entry : List Char
  declared : Alias

/-- Reads entries one after another; a name may be declared only once. -/
def parseEntries (settings : Settings) (mode : CaseMode) (text : String) :
    List Declared → List (Nat × List Char) → Except Rejection (List Alias)
  | _, [] => .ok []
  | seen, (start, entry) :: entries => do
    let a ← Alias.parseEntry settings mode start entry
    let key := mode.fold a.name.value
    match seen.find? (fun d => d.key == key) with
    | some earlier =>
      .error (.parse (.duplicateAlias a.name.value (Text.trim entry) earlier.entry text start))
    | none =>
      let rest ← parseEntries settings mode text (⟨key, Text.trim entry, a⟩ :: seen) entries
      .ok (a :: rest)

/-- Reads alias entries joined by commas; a blank text is the empty set. -/
def parse (settings : Settings) (mode : CaseMode) (text : String) : Except Rejection AliasSet :=
  if Text.allBlank text.toList then .ok (NamedSet.empty mode)
  else
    match Alias.splitEntries text with
    | .error e => .error (.parse (.layout e))
    | .ok entries => do
      let aliases ← parseEntries settings mode text [] entries
      NamedSet.of settings mode aliases

def text (s : AliasSet) : String :=
  SetKind.aliases.join (s.entries.map Alias.text)

end AliasSet

end FunctionCatalog
