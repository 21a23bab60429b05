import FunctionCatalog.Proofs.Selector.Closed

/-
  FunctionCatalog: which texts are selectors.
  A text is read as a selector when it is a name with a parameter text behind it that is empty, raw
  or a list that can be read (`exists_parse`), and what is read has these parts (`parse_eq_ok`).
-/

namespace FunctionCatalog.Selector

variable {settings : Settings} {mode : CaseMode} {name : Name} {n v : List Char}

theorem not_isNamePart_of_isSeparated (h : isSeparated v = true) :
    ∀ c ∈ v.head?, isNamePart c = false := by
  cases v with
  | nil => simp
  | cons d v =>
    intro c hc
    cases hc
    simp only [isSeparated, Bool.or_eq_true, beq_iff_eq] at h
    rcases h with rfl | h
    · decide
    · exact not_isNamePart_of_isBlank h

theorem exists_parse (hv : isSeparated v = true)
    (hread : isListText v = true → ∃ ps, Parameter.parse settings mode (String.ofList v) = .ok ps)
    (hmake : Name.make settings (String.ofList n) mode = .ok name) :
    ∃ s, parse settings mode (String.ofList (n ++ v)) = .ok s ∧ s.name = name ∧
      s.valueText = String.ofList v := by
  have hn := Name.isName_of_make hmake
  have htake : takeName (String.ofList (n ++ v)).toList = (n, v) := by
    rw [String.toList_ofList]
    exact takeName_of_isName hn (not_isNamePart_of_isSeparated hv)
  unfold parse
  rw [htake]
  cases n with
  | nil => cases hn
  | cons c n =>
    dsimp only
    rw [dif_pos hv]
    refine ⟨{ name, valueText := String.ofList v, isSeparated_valueText := by simpa using hv }, ?_,
      rfl, rfl⟩
    have hname : Rejection.ofName (Name.make settings (String.ofList (c :: n)) mode) =
        .ok name := by
      rw [hmake, Rejection.ofName_ok]
    cases hlist : isListText v with
    | false => simp only [hname, bind, Except.bind, Bool.false_eq_true, if_false]
    | true =>
      obtain ⟨ps, hps⟩ := hread hlist
      simp only [hname, hps, bind, Except.bind, if_true]

theorem parse_eq_ok {text : String} {s : Selector} (h : parse settings mode text = .ok s) :
    Name.make settings (String.ofList (takeName text.toList).1) mode = .ok s.name ∧
      s.valueText.toList = (takeName text.toList).2 ∧
      ∃ ps, s.parameters settings = .ok ps := by
  unfold parse at h
  split at h
  · cases h
  · next n rest hne htake =>
    rw [htake]
    split at h
    · next hsep =>
      cases hlist : isListText rest with
      | false =>
        rw [if_neg (by simp [hlist])] at h
        obtain ⟨name, hname, hs⟩ := exists_of_bind_ok h
        cases hs
        refine ⟨ok_of_mapError_ok hname, String.toList_ofList, [], ?_⟩
        rw [parameters, if_neg (by simp [hlist])]
      | true =>
        rw [if_pos hlist] at h
        obtain ⟨ps, hps, htail⟩ := exists_of_bind_ok h
        obtain ⟨name, hname, hs⟩ := exists_of_bind_ok htail
        cases hs
        have hmake := ok_of_mapError_ok hname
        refine ⟨hmake, String.toList_ofList, ps, ?_⟩
        rw [parameters, if_pos (by simpa using hlist), Name.mode_of_make hmake]
        exact hps
    · cases h

end FunctionCatalog.Selector
