import FunctionCatalog.Info
import FunctionCatalog.NamedSet.Algebra
import FunctionCatalog.NamedSet.Kind

/-
  FunctionCatalog: catalogs.
  An info set is what a provider advertises. Its text joins the infos with commas.
-/

namespace FunctionCatalog

instance : Entry Info where
  name := Info.name
  withMode := Info.withMode
  same := Info.same
  mode_of_withMode := Info.mode_of_withMode

abbrev InfoSet := NamedSet Info

namespace InfoSet

/-- Reads infos joined by commas; a blank text is the empty set. -/
def parse (settings : Settings) (mode : CaseMode) (text : String) : Except Rejection InfoSet := do
  if Text.allBlank text.toList then .ok (NamedSet.empty mode)
  else
    let pieces := Text.splitWhere (· == ',') text.toList
    let infos ← pieces.mapM (fun piece => Info.parse settings mode (String.ofList piece))
    NamedSet.of settings mode infos

def text (s : InfoSet) : String :=
  SetKind.infos.join (s.entries.map Info.text)

end InfoSet

end FunctionCatalog
