import FunctionCatalog.Encoding.Marked

/-
  FunctionCatalog: records of texts, and the marker of a mode.
  What stands in a record can be told by its fields, in whatever order they are (`fields_of_isPair`,
  `same_iff_of_isPair`). Taking the marker off a text and putting it back gives the text again.
-/

namespace FunctionCatalog

namespace Marked

/-- A field of a record of texts is the first one with its key. -/
theorem field?_ofFields (key : String) (fields : List (String × Value)) :
    field? key (.ofFields fields) = .ok ((fields.find? (fun f => f.1 == key)).map (·.2)) := by
  show Except.ok (Value.find? (fun k => k.same (.text key)) (fields.map (fun f => .text f.1))
    (fields.map (·.2))) = _
  refine congrArg Except.ok ?_
  induction fields with
  | nil => rfl
  | cons f fields ih =>
    rw [List.map_cons, List.map_cons, Value.find?, ih, List.find?_cons]
    rw [show (Value.text f.1).same (.text key) = (f.1 == key) by simp [Value.same]]
    cases f.1 == key <;> rfl

/-- A record of two texts under these keys, in either order. -/
def IsPair (key text key' text' : String) (d : Value) : Prop :=
  d = .ofFields [(key, .text text), (key', .text text')] ∨
    d = .ofFields [(key', .text text'), (key, .text text)]

section Pair

variable {key key' text text' : String} {d : Value} (hkey : key ≠ key')
  (h : IsPair key text key' text' d)

include hkey h

theorem fields_of_isPair :
    field? key d = .ok (some (.text text)) ∧ field? key' d = .ok (some (.text text')) := by
  rcases h with rfl | rfl <;> simp [field?_ofFields, hkey, hkey.symm]

/-- The order of the fields makes no difference. -/
theorem same_iff_of_isPair {a b : String} :
    Value.same (.ofFields [(key, .text a), (key', .text b)]) d = true ↔ a = text ∧ b = text' := by
  rcases h with rfl | rfl <;>
    simp [Value.ofFields, Value.same, Value.tests, Value.fieldsPass, Value.find?, hkey, hkey.symm]

end Pair

/-- A name tells its mode by the marker in front of it. -/
theorem unmark_mark (mode : CaseMode) (n : Name) : unmark (mark mode n.value) = (n.value, mode) := by
  cases mode with
  | insensitive =>
    rw [unmark, mark, String.toList_append]
    show (String.ofList n.value.toList, _) = _
    rw [String.ofList_toList]
  | sensitive =>
    have hname := n.isName_value
    rw [mark, unmark]
    split
    · next heq =>
      rw [heq] at hname
      exact absurd hname (by simp [isName, isNameStart])
    · rfl

theorem mark_unmark (text : String) : mark (unmark text).2 (unmark text).1 = text := by
  rw [unmark]
  split
  · next rest heq =>
    rw [← String.toList_inj, mark, String.toList_append, heq, String.toList_ofList]
    rfl
  · rfl

end Marked

end FunctionCatalog
