import FunctionCatalog.Error

/-
  FunctionCatalog: selectors.
  A selector is the name of a function and the text of its parameters, kept as it was written. The
  text is empty or set apart from the name by white space or its opening parenthesis.
-/

namespace FunctionCatalog

/-- A parameter text may follow a name directly. -/
def isSeparated : List Char → Bool
  | [] => true
  | c :: _ => c == '(' || Text.isBlank c

structure Selector where
  name : Name
  valueText : String
  isSeparated_valueText : isSeparated valueText.toList = true
  handle : Handle := .loose
deriving DecidableEq

namespace Selector

/-- A selector of a name and a parameter text; a space goes between them where one is needed. -/
def make (name : Name) (valueText : String) : Selector :=
  if h : isSeparated valueText.toList = true then
    { name, valueText, isSeparated_valueText := h }
  else
    { name
      valueText := String.ofList (' ' :: valueText.toList)
      isSeparated_valueText := by simp [isSeparated]; decide }

def text (s : Selector) : String :=
  s.name.value ++ s.valueText

def same (a b : Selector) : Bool :=
  a.name.same b.name && a.valueText == b.valueText

/-- A selector of another name; of a name like its own it is the selector itself. -/
def withName (name : Name) (s : Selector) : Selector :=
  if name.alike s.name then s else { s with name, handle := .loose }

/-- A selector as a numbered object. -/
def settle (s : Selector) : Supply Selector := do
  return { s with name := ← s.name.settle, handle := ← s.handle.settle }

/-- A selector with its name in another mode. -/
def withMode (settings : Settings) (mode : CaseMode) (s : Selector) :
    Except Rejection Selector := do
  let name ← Rejection.ofName (s.name.withMode settings mode)
  return s.withName name

/-- A selector with another parameter text; with a text equal to its own it is the selector
itself. -/
def withValueText (valueText : String) (s : Selector) : Selector :=
  let t := make s.name valueText
  if t.same s then s else t

/-- A parameter text is a list when it opens a parenthesis; any other text is kept raw. -/
def isListText (cs : List Char) : Bool :=
  match Text.trimLeft cs with
  | '(' :: _ => true
  | _ => false

/-- A selector with nothing but white space after its name. -/
def isBare (s : Selector) : Bool :=
  Text.allBlank s.valueText.toList

theorem mode_of_withName (name : Name) (s : Selector) :
    (s.withName name).name.mode = name.mode := by
  unfold withName
  split
  · next h => exact (Name.mode_of_alike h).symm
  · rfl

end Selector

end FunctionCatalog
