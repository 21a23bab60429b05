/-
  FunctionCatalog: the kinds of named sets.
  Two kinds of sets differ in what they are called, in how their texts are joined and in what they
  can be asked, not in what they may hold.
-/

namespace FunctionCatalog

inductive SetKind where
  | infos
  | aliases
deriving DecidableEq, Repr

namespace SetKind

def text : SetKind → String
  | infos => "InfoSet"
  | aliases => "AliasSet"

/-- What stands between the texts of two entries. -/
def separator : SetKind → String
  | infos => ","
  | aliases => ", "

/-- The text of a set, from the texts of its entries. -/
def join (kind : SetKind) (texts : List String) : String :=
  kind.separator.intercalate texts

end SetKind

end FunctionCatalog
