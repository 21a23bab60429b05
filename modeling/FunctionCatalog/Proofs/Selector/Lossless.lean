import FunctionCatalog.Proofs.Selector.Format
import FunctionCatalog.Proofs.Selector.Parse

/-
  FunctionCatalog: nothing is lost when parameters are written and read.
  Values of the kinds that have a parameter form come back from `Value.formatAll` and from
  `Selector.withValues` one for one (`parse_formatAll`). Which names come back depends on the limit
  at the time of reading: a name that was made under a higher one is still written
  (`overlong_name_is_written`).
-/

namespace FunctionCatalog

variable {settings : Settings} {mode : CaseMode}

/-- Whether a list can be read does not depend on how its names compare. -/
theorem Parameter.exists_parse_inMode {text : String} {ps : List Parameter}
    (h : parse settings mode text = .ok ps) (mode' : CaseMode) :
    ∃ qs, parse settings mode' text = .ok qs := by
  rcases spells_of_parse h with ⟨-, hblank⟩ | ⟨a, b, c, hcs, ha, hb, hc⟩
  · exact ⟨[], parse_of_lexes_nil hblank⟩
  · obtain ⟨qs, hqs⟩ := hb.exists_inMode mode'
    exact ⟨qs, parse_of_spellsList ⟨a, b, c, hcs, ha, hqs, hc⟩⟩

namespace Selector

variable {s : Selector}

/-- The text of a selector falls apart where it was put together. -/
theorem takeName_text (s : Selector) :
    takeName s.text.toList = (s.name.value.toList, s.valueText.toList) := by
  rw [text, String.toList_append]
  exact takeName_of_isName s.name.isName_value
    (not_isNamePart_of_isSeparated s.isSeparated_valueText)

theorem not_isListText_of_isBare (h : s.isBare = true) :
    isListText s.valueText.toList = false := by
  have hleft : Text.trimLeft (s.valueText.toList ++ []) = [] := Text.trimLeft_append h (by simp)
  rw [List.append_nil] at hleft
  rw [isListText, hleft]

/-- The text of a selector is read in its mode when its name is not too long and a list behind it can
be read. -/
theorem exists_parse_text (hfits : s.name.Fits settings)
    (hread : isListText s.valueText.toList = true → ∃ ps, s.parameters settings = .ok ps) :
    ∃ t, parse settings s.name.mode s.text = .ok t ∧ t.name = s.name.inMode s.name.mode ∧
      t.valueText = s.valueText := by
  have hmake : Name.make settings (String.ofList s.name.value.toList) s.name.mode =
      .ok (s.name.inMode s.name.mode) := by
    rw [String.ofList_toList]
    exact Name.make_of_fits hfits
  have hlist : isListText s.valueText.toList = true → ∃ ps, Parameter.parse settings
      s.name.mode (String.ofList s.valueText.toList) = .ok ps := by
    intro hopen
    obtain ⟨ps, hps⟩ := hread hopen
    rw [parameters, if_pos hopen] at hps
    exact ⟨ps, by rwa [String.ofList_toList]⟩
  obtain ⟨t, ht, hname, hvalue⟩ := exists_parse s.isSeparated_valueText hlist hmake
  rw [← String.toList_append, String.ofList_toList] at ht
  exact ⟨t, ht, hname, by rw [hvalue, String.ofList_toList]⟩

/-- The text of a selector is accepted in some mode when its name is not too long and a list behind
it can be read. -/
theorem exists_parse_text_iff (settings : Settings) (s : Selector) :
    (∃ mode t, parse settings mode s.text = .ok t) ↔
      s.name.Fits settings ∧
        (isListText s.valueText.toList = true → ∃ ps, s.parameters settings = .ok ps) := by
  constructor
  · rintro ⟨mode, t, ht⟩
    obtain ⟨hmake, hvalue, ps, hps⟩ := parse_eq_ok ht
    rw [takeName_text, String.ofList_toList] at hmake
    rw [takeName_text] at hvalue
    obtain ⟨hname, -, hfits⟩ := Name.make_eq_ok hmake
    refine ⟨by rwa [Name.Fits, hname] at hfits, fun hlist => ?_⟩
    rw [parameters, hvalue, if_pos hlist, String.toList_inj.1 hvalue] at hps
    rw [parameters, if_pos hlist]
    exact Parameter.exists_parse_inMode hps s.name.mode
  · rintro ⟨hfits, hread⟩
    obtain ⟨t, ht, -⟩ := exists_parse_text hfits hread
    exact ⟨s.name.mode, t, ht⟩

/-- A selector can be written when its text is accepted and has white space or a list behind its
name. -/
theorem isFormattable_iff (settings : Settings) (s : Selector) :
    (Value.item (.selector s)).IsFormattable settings ↔
      (∃ mode t, parse settings mode s.text = .ok t) ∧
        (s.isBare = true ∨ isListText s.valueText.toList = true) := by
  rw [exists_parse_text_iff]
  constructor
  · rintro ⟨hfits, hbare | ⟨hlist, hread⟩⟩
    · refine ⟨⟨hfits, fun hopen => ?_⟩, .inl hbare⟩
      rw [not_isListText_of_isBare hbare] at hopen
      exact absurd hopen Bool.false_ne_true
    · exact ⟨⟨hfits, fun _ => hread⟩, .inr hlist⟩
  · rintro ⟨⟨hfits, hread⟩, hbare | hlist⟩
    · exact ⟨hfits, .inl hbare⟩
    · exact ⟨hfits, .inr ⟨hlist, hread hlist⟩⟩

end Selector

namespace Value

variable {vs : List Value}

theorem exists_parse_formatAll (h : ∀ v ∈ vs, v.IsFormattable settings) (mode : CaseMode) :
    ∃ text ps, formatAll vs = .ok text ∧ Parameter.parse settings mode text = .ok ps ∧
      List.Forall₂ (ReadAs mode) vs ps := by
  obtain ⟨text, ps, b, htext, hlist, hspells, hreads⟩ := Parameter.exists_formatAll h mode
  refine ⟨text, ps, htext, ?_, hreads⟩
  exact Parameter.parse_of_spellsList
    ⟨[], b, [], hlist, Selector.lexes_nil, hspells, Selector.lexes_nil⟩

theorem exists_parameters_withValues (h : ∀ v ∈ vs, v.IsFormattable settings) (s : Selector) :
    ∃ t ps, s.withValues vs = .ok t ∧ t.parameters settings = .ok ps ∧
      List.Forall₂ (ReadAs s.name.mode) vs ps := by
  obtain ⟨t, ps, ht, hname, hreads, ⟨hvalue, rfl⟩ | ⟨b, hlist, hspells⟩⟩ :=
    Selector.exists_withValues h s
  · refine ⟨t, [], ht, ?_, hreads⟩
    rw [Selector.parameters, hvalue]
    rfl
  · refine ⟨t, ps, ht, ?_, hreads⟩
    have hopen : Selector.isListText t.valueText.toList = true := by
      rw [hlist]
      rfl
    rw [Selector.parameters, if_pos hopen, hname]
    exact Parameter.parse_of_spellsList
      ⟨[], b, [], hlist, Selector.lexes_nil, hspells, Selector.lexes_nil⟩

/-- Values that can be written come back one for one from the list that is written for them, in
every mode, and from a selector that is given them, in the mode of its name. Any text can be
written, and so can whole numbers of as many digits as may be printed, finite numbers, names that
are no longer than is allowed, and selectors whose text is accepted with white space or a list
behind the name. -/
theorem parse_formatAll (settings : Settings) :
    (∀ s : Selector, (Value.item (.selector s)).IsFormattable settings ↔
      (∃ mode t, Selector.parse settings mode s.text = .ok t) ∧
        (s.isBare = true ∨ Selector.isListText s.valueText.toList = true)) ∧
    (∀ vs : List Value, (∀ v ∈ vs, v.IsFormattable settings) →
      (∀ mode, ∃ text ps, formatAll vs = .ok text ∧ Parameter.parse settings mode text = .ok ps ∧
        List.Forall₂ (ReadAs mode) vs ps) ∧
      (∀ s : Selector, ∃ t ps, s.withValues vs = .ok t ∧ t.parameters settings = .ok ps ∧
        List.Forall₂ (ReadAs s.name.mode) vs ps)) :=
  ⟨Selector.isFormattable_iff settings, fun _ hvs =>
    ⟨exists_parse_formatAll hvs, exists_parameters_withValues hvs⟩⟩

/-- A text that would end its literal and the list, a negative zero, a number with an exponent, a
name and a selector with a list of its own. -/
def mixed : List Value :=
  [.text "a\"),(\\", .int (-5), .double (.zero true), .double (.ofInt 10000000000000000),
    .name { value := "Big", mode := .sensitive, isName_value := by decide },
    .item (.selector { name := { value := "f", mode := .sensitive, isName_value := Eq.refl true }
                       valueText := " ( g(\"x)\") ) "
                       isSeparated_valueText := by decide })]

theorem parse_formatAll_mixed :
    (∀ v ∈ mixed, v.IsFormattable {}) ∧
      (formatAll mixed).toOption = some "(\"a\\\"),(\\\\\", -5, -0.0, 1e+16, Big, f ( g(\"x)\") ) )" ∧
      ∃ text ps, formatAll mixed = .ok text ∧
        Parameter.parse {} .insensitive text = .ok ps ∧
        List.Forall₂ (ReadAs .insensitive) mixed ps := by
  have hint : (Number.natChars (-5 : Int).natAbs).length ≤ Number.digitLimit := by
    decide +kernel
  have hfinite : (Binary64.ofInt 10000000000000000).isFinite = true := by
    decide +kernel
  have hlist : ∃ ps, Parameter.parse {} .sensitive " ( g(\"x)\") ) " = .ok ps := by
    refine exists_of_isOk ?_
    decide +kernel
  have hmixed : ∀ v ∈ mixed, v.IsFormattable {} := by
    unfold mixed
    simp only [List.forall_mem_cons, List.not_mem_nil, false_imp_iff, implies_true, and_true]
    unfold IsFormattable
    exact ⟨trivial, hint, by decide, hfinite, by decide, by decide, .inr ⟨by decide, hlist⟩⟩
  exact ⟨hmixed, by decide +kernel, ((parse_formatAll {}).2 mixed hmixed).1 .insensitive⟩

/-- A name that was made under a higher limit is written and refused when it is read. -/
theorem overlong_name_is_written :
    ∃ n : Name, Name.make {} "abcd" .sensitive = .ok n ∧ formatAll [.name n] = .ok "(abcd)" ∧
      Parameter.parse { nameLimit := 3 } .sensitive "(abcd)" =
        .error (.name ⟨"abcd", 3, .tooLong 4 3⟩) :=
  ⟨{ value := "abcd", mode := .sensitive, isName_value := by decide }, by decide, rfl,
    error_of_map_error (f := fun _ => ()) (by decide +kernel)⟩

end Value

end FunctionCatalog
