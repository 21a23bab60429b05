import FunctionCatalog.Encoding.Marked
import FunctionCatalog.Encoding.Yaml.Read
import FunctionCatalog.Encoding.Yaml.Write
import FunctionCatalog.Session.Command

/-
  FunctionCatalog: commands that write values as data and documents and read them back.
-/

namespace FunctionCatalog.Run

/-- The data that a source gives. -/
def dataOf (source : DataSource) : Run Value := do
  match source with
  | .given v => return v
  | .label l => lookup l

def writeTexts (form : SetForm) (texts : List String) : Value :=
  match form with
  | .list => .list (texts.map .text)
  | .json => .text (Json.writeTexts texts)
  | .yaml => .text (Yaml.writeTexts texts)

/-- The data that a document in some form holds. -/
def readForm (form : SetForm) (v : Value) : Run Value := do
  match form with
  | .list => return v
  | .json => do ofExcept (Json.read (← ofOption .wrongKind v.text?))
  | .yaml => do ofExcept (Yaml.read (← ofOption .noSuchPart v.text?))

def readSet (kind : SetKind) (v : Value) : Run ItemSet := do
  match kind with
  | .infos => return (← ofExcept (InfoSet.ofData (← settings) v)).asItems
  | .aliases => return (← ofExcept (AliasSet.ofData (← settings) v)).asItems

end FunctionCatalog.Run
