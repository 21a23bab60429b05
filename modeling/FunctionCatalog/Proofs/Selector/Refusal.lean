import FunctionCatalog.Proofs.Selector.Parse
import FunctionCatalog.Proofs.Selector.Recognition

/-
  FunctionCatalog: how a selector text is refused.
  A text is refused as a selector for a whole number of too many digits in its list, for a name, or
  as malformed (`of_parse_error`). The first of these comes before anything else in the text is
  looked at (`parse_of_reachesUnreadable`).
-/

namespace FunctionCatalog

/-- What only needs a name is refused only for the name. -/
theorem Rejection.name_of_bind_error {α : Type} {f : Name → α} {x : Except NameError Name}
    {e : Rejection} (h : (Rejection.ofName x >>= fun name => .ok (f name)) = .error e) :
    ∃ cause, e = .name cause := by
  rcases error_of_bind_error h with hname | ⟨name, -, hok⟩
  · cases x with
    | error cause => exact ⟨cause, (Except.error.inj hname).symm⟩
    | ok name => cases hname
  · cases hok

namespace Selector

variable {settings : Settings} {mode : CaseMode} {n v : List Char} {text : String}

/-- A text is refused as a selector for a number in its list, for its name or a name in the list,
or as malformed. -/
theorem of_parse_error {e : Rejection} (h : parse settings mode text = .error e) :
    (e = .digitLimit ∧ ∃ n v, text.toList = n ++ v ∧ isName n = true ∧ isListText v = true ∧
        ReachesUnreadable v) ∨
      (∃ cause, e = .name cause) ∨ ∃ cause, e = .parse (.selector cause) := by
  unfold parse at h
  split at h
  · cases h
    exact .inr (.inr ⟨_, rfl⟩)
  · next n v hne htake =>
    have hn : isName n = true := by
      have htaken : (takeName text.toList).1 ≠ [] → isName (takeName text.toList).1 = true :=
        isName_takeName
      rw [htake] at htaken
      exact htaken hne
    have htext : text.toList = n ++ v := by
      rw [← takeName_append text.toList, htake]
    split at h
    · cases hlist : isListText v with
      | false =>
        rw [if_neg (by simp [hlist])] at h
        dsimp only at h
        exact .inr (.inl (Rejection.name_of_bind_error h))
      | true =>
        rw [if_pos hlist] at h
        rcases error_of_bind_error h with hlistFails | ⟨ps, -, h⟩
        · rcases Parameter.of_parse_error hlistFails with ⟨rfl, hdigits⟩ | ⟨w, rfl, -⟩ | hfault
          · rw [String.toList_ofList] at hdigits
            exact .inl ⟨rfl, n, v, htext, hn, hlist, hdigits⟩
          · exact .inr (.inl ⟨_, rfl⟩)
          · obtain ⟨fault, position, rfl⟩ := hfault
            exact .inr (.inr ⟨_, rfl⟩)
        · dsimp only at h
          exact .inr (.inl (Rejection.name_of_bind_error h))
    · cases h
      exact .inr (.inr ⟨_, rfl⟩)

theorem isSeparated_of_isListText (h : isListText v = true) : isSeparated v = true := by
  cases v with
  | nil => cases h
  | cons c v =>
    cases hc : Text.isBlank c with
    | true => simp [isSeparated, hc]
    | false =>
      rw [isListText, Text.trimLeft, List.dropWhile_cons_of_neg (by simp [hc])] at h
      split at h
      · next heq =>
        cases heq
        rfl
      · cases h

theorem parse_of_reachesUnreadable (hn : isName n = true) (hlist : isListText v = true)
    (hv : ReachesUnreadable v) :
    parse settings mode (String.ofList (n ++ v)) = .error .digitLimit := by
  have hsep := isSeparated_of_isListText hlist
  have htake : takeName (String.ofList (n ++ v)).toList = (n, v) := by
    rw [String.toList_ofList]
    exact takeName_of_isName hn (not_isNamePart_of_isSeparated hsep)
  have hlimit : Parameter.parse settings mode (String.ofList v) = .error .digitLimit := by
    apply Parameter.parse_eq_digitLimit_iff.2
    rwa [String.toList_ofList]
  unfold parse
  rw [htake]
  split
  · next heq =>
    cases heq
    cases hn
  · next heq =>
    cases heq
    rw [dif_pos hsep, if_pos hlist, hlimit]
    rfl

end Selector

end FunctionCatalog
