import FunctionCatalog.Failure
import FunctionCatalog.Selector.Parse

/-
  FunctionCatalog: values as parameter text.
  What is written here is what `Parameter.parse` reads.
-/

namespace FunctionCatalog

/-- The form of a value as a parameter. -/
def Value.format (v : Value) : Except FormatFault String :=
  match v with
  | .bool _ => .error .boolean
  | .int i =>
    match intPrint i with
    | .ok t => .ok t
    | .error _ => .error .digitLimit
  | .double x => if x.isFinite then .ok x.text else .error (.number x)
  | .item (.selector s) => .ok s.text
  | .name n => .ok n.value
  | v =>
    match v.text? with
    | some s => .ok (TextLiteral.write s)
    | none => .error (.kind v.kindText)

/-- A list of values as a parameter text. -/
def Value.formatAll (vs : List Value) : Except FormatFault String := do
  let texts ← vs.mapM Value.format
  .ok ("(" ++ ", ".intercalate texts ++ ")")

/-- A selector with other values; without any it has no parameter text at all. -/
def Selector.withValues (vs : List Value) (s : Selector) : Except FormatFault Selector := do
  let text ← if vs.isEmpty then .ok "" else Value.formatAll vs
  .ok (s.withValueText text)

end FunctionCatalog
