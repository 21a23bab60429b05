import FunctionCatalog.Selector.Parameter

/-
  FunctionCatalog: selectors as text.
  `Selector.parse` takes the longest name at the front and keeps the rest verbatim, after checking
  it when it is a parameter list. `Selector.parameters` reads that list again.
-/

namespace FunctionCatalog.Selector

def parse (settings : Settings) (mode : CaseMode) (text : String) : Except Rejection Selector :=
  match takeName text.toList with
  | ([], _) => faultAt .nameExpected text 0
  | (name, rest) =>
    if h : isSeparated rest = true then do
      let valueText := String.ofList rest
      if isListText rest then
        let _ ← Parameter.parse settings mode valueText
      let name ← Rejection.ofName (Name.make settings (String.ofList name) mode)
      .ok { name, valueText, isSeparated_valueText := by simpa [valueText] using h }
    else faultAt (.badCharacter (rest.headD ' ')) text name.length

/-- The parameters of a selector, nested ones unevaluated. Raw text that is no list has none. -/
def parameters (settings : Settings) (s : Selector) : Except Rejection (List Parameter) :=
  if isListText s.valueText.toList then Parameter.parse settings s.name.mode s.valueText
  else .ok []

/-- A nested selector has a shorter parameter text than the selector it is a parameter of. -/
theorem shorterThan_of_mem_parameters {settings : Settings} {s : Selector} {vs : List Parameter}
    (h : s.parameters settings = .ok vs) :
    ∀ v ∈ vs, v.ShorterThan s.valueText.toList.length := by
  unfold parameters at h
  split at h
  · exact Parameter.length_valueText_lt h
  · cases h; simp

end FunctionCatalog.Selector
