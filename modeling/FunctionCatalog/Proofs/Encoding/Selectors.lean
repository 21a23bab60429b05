import FunctionCatalog.Proofs.Encoding.Marked
import FunctionCatalog.Proofs.Selector.Language
import FunctionCatalog.Proofs.Selector.Lossless

/-
  FunctionCatalog: selectors as text and as data, and back.
  A text falls apart into its longest name and the rest at one place only, so that a selector is got
  back from its text and from its record (`parse_divides`). The record of two arbitrary texts is
  read as these put together: it comes back only if they fall apart where they were put together
  (`toData_ofData_iff`).
-/

namespace FunctionCatalog

namespace Selector
open Marked

variable {settings : Settings} {mode : CaseMode} {text name valueText : String}
  {n v cs : List Char} {d : Value} {s : Selector}

/-! ## Where a text falls apart -/

/-- A text is its longest name and a rest that is empty or is set apart from the name by white space
or a parenthesis. -/
structure Divides (n v cs : List Char) : Prop where
  joined : n ++ v = cs
  name : isName n = true
  longest : ∀ m, m <+: cs → isName m = true → m.length ≤ n.length
  separated : isSeparated v = true

theorem length_le_takeName {m : List Char} (hm : m <+: cs) (hname : isName m = true) :
    m.length ≤ (takeName cs).1.length := by
  obtain ⟨rest, rfl⟩ := hm
  cases m with
  | nil => cases hname
  | cons c m =>
    obtain ⟨hc, hall⟩ := Bool.and_eq_true_iff.1 hname
    rw [List.cons_append, takeName, if_pos hc,
      List.takeWhile_append_of_pos (List.all_eq_true.1 hall), List.length_cons, List.length_cons,
      List.length_append]
    omega

theorem divides_iff :
    Divides n v cs ↔ takeName cs = (n, v) ∧ isName n = true ∧ isSeparated v = true := by
  constructor
  · rintro ⟨rfl, hname, -, hsep⟩
    exact ⟨takeName_of_isName hname (not_isNamePart_of_isSeparated hsep), hname, hsep⟩
  · rintro ⟨htake, hname, hsep⟩
    have hjoined := takeName_append cs
    rw [htake] at hjoined
    refine ⟨hjoined, hname, fun m hm hmname => ?_, hsep⟩
    have hlength := length_le_takeName hm hmname
    rwa [htake] at hlength

/-- The parts of a selector are where its text falls apart. -/
theorem divides_text (s : Selector) :
    Divides s.name.value.toList s.valueText.toList s.text.toList :=
  divides_iff.2 ⟨s.takeName_text, s.name.isName_value, s.isSeparated_valueText⟩

/-! ## Texts -/

/-- A selector has the text that it was read from. -/
theorem text_of_parse (h : parse settings mode text = .ok s) :
    s.text = text ∧ s.name.mode = mode := by
  obtain ⟨hmake, hvalue, -⟩ := parse_eq_ok h
  obtain ⟨hname, hmode, -⟩ := Name.make_eq_ok hmake
  refine ⟨?_, hmode⟩
  rw [← String.toList_inj, Selector.text, String.toList_append, hname, hvalue, String.toList_ofList,
    takeName_append]

/-- A text is read as a selector where it falls apart into a name that is not too long and a rest
that can be read if it is a list. -/
theorem exists_parse_iff :
    (∃ s, parse settings mode text = .ok s) ↔
      ∃ n v, Divides n v text.toList ∧ (n.length : Int) ≤ settings.nameLimit ∧
        (isListText v = true →
          ∃ ps, Parameter.parse settings mode (String.ofList v) = .ok ps) := by
  constructor
  · rintro ⟨s, hs⟩
    obtain ⟨htext, hmode⟩ := text_of_parse hs
    obtain ⟨hmake, -, ps, hps⟩ := parse_eq_ok hs
    refine ⟨s.name.value.toList, s.valueText.toList, htext ▸ s.divides_text,
      (Name.make_eq_ok hmake).2.2, fun hlist => ⟨ps, ?_⟩⟩
    rwa [parameters, if_pos hlist, hmode, ← String.ofList_toList (s := s.valueText)] at hps
  · rintro ⟨n, v, hdivides, hlimit, hread⟩
    obtain ⟨s, hs, -⟩ :=
      exists_parse hdivides.separated hread (Name.make_ofList hdivides.name hlimit)
    rw [hdivides.joined, String.ofList_toList] at hs
    exact ⟨s, hs⟩

/-- A reading gives a selector equal to `s`, with the same name as it is written, in the same mode,
and the same parameter text. -/
def RestoredBy {ε : Type} (s : Selector) (reading : Except ε Selector) : Prop :=
  ∃ t, reading = .ok t ∧ t.same s = true ∧ t.name.alike s.name = true ∧ t.valueText = s.valueText

/-- A selector whose text is accepted in some mode is got back from it in its own. -/
theorem restoredBy_parse (h : ∃ mode t, parse settings mode s.text = .ok t) :
    s.RestoredBy (parse settings s.name.mode s.text) := by
  obtain ⟨hfits, hread⟩ := (exists_parse_text_iff settings s).1 h
  obtain ⟨t, ht, hname, hvalue⟩ := exists_parse_text hfits hread
  have hnames : t.name.value = s.name.value := by rw [hname]; rfl
  refine ⟨t, ht, ?_, ?_, hvalue⟩
  · rw [same, Name.same_of_value hnames, hvalue, beq_self_eq_true, Bool.and_self]
  · rw [hname]
    exact s.name.alike_refl

/-! ## Records -/

/-- The record of two texts is read as one text: the name without its marker and what stands in the
other field behind it. -/
theorem ofData_of_isPair (settings : Settings) (h : IsPair "name" name "value_text" valueText d) :
    ofData settings d =
      Failure.ofRejection (parse settings (unmark name).2 ((unmark name).1 ++ valueText)) := by
  obtain ⟨hname, hvalue⟩ := fields_of_isPair (by decide) h
  rw [ofData, nameField, field, hname, hvalue]
  rfl

theorem ofData_toData (settings : Settings) (s : Selector) :
    ofData settings s.toData = Failure.ofRejection (parse settings s.name.mode s.text) := by
  have hpair : IsPair "name" (mark s.name.mode s.name.value) "value_text" s.valueText s.toData :=
    .inl rfl
  rw [ofData_of_isPair settings hpair, unmark_mark]
  rfl

theorem restoredBy_ofData (h : s.RestoredBy (parse settings s.name.mode s.text)) :
    s.RestoredBy (ofData settings s.toData) := by
  obtain ⟨t, ht, hparts⟩ := h
  refine ⟨t, ?_, hparts⟩
  rw [ofData_toData, ht]
  rfl

/-- A text is read as a selector exactly where it starts with a name, the longest one not too long
and followed by the end, white space or a parenthesis, and what follows can be read if, behind white
space, it opens a parenthesis. The selector keeps every character: its text is the text, its name
the longest one in the mode of the reading, and its parameter text the rest. Any selector whose text
is accepted is got back from it and from its record. -/
theorem parse_divides (settings : Settings) :
    (∀ mode text, (∃ s, parse settings mode text = .ok s) ↔
      ∃ n v, Divides n v text.toList ∧ (n.length : Int) ≤ settings.nameLimit ∧
        (isListText v = true →
          ∃ ps, Parameter.parse settings mode (String.ofList v) = .ok ps)) ∧
    (∀ mode text s, parse settings mode text = .ok s →
      s.text = text ∧ s.name.mode = mode ∧
        Divides s.name.value.toList s.valueText.toList text.toList) ∧
    (∀ s : Selector, (∃ mode t, parse settings mode s.text = .ok t) →
      s.RestoredBy (parse settings s.name.mode s.text) ∧
        s.RestoredBy (ofData settings s.toData)) := by
  refine ⟨fun mode text => exists_parse_iff, fun mode text s hs => ?_, fun s hs => ?_⟩
  · obtain ⟨htext, hmode⟩ := text_of_parse hs
    exact ⟨htext, hmode, htext ▸ s.divides_text⟩
  · exact ⟨restoredBy_parse hs, restoredBy_ofData (restoredBy_parse hs)⟩

/-- A selector with white space of several kinds, and a list with a list in it. -/
def spaced : Selector where
  name := { value := "F.1", mode := .insensitive, isName_value := by decide }
  valueText := "\u00a0\t(\"a(,\" , g (1)) "
  isSeparated_valueText := by decide

theorem parse_divides_spaced :
    (∃ mode t, parse {} mode spaced.text = .ok t) ∧
      spaced.RestoredBy (parse {} .insensitive spaced.text) ∧
      spaced.RestoredBy (ofData {} spaced.toData) := by
  have haccepted : ∃ mode t, parse {} mode spaced.text = .ok t :=
    ⟨.sensitive, exists_of_isOk (by decide +kernel)⟩
  exact ⟨haccepted, (parse_divides {}).2.2 spaced haccepted⟩

/-- The record of a selector is the one that it was read from exactly if the name in that record is
one up to its marker, and the parameter text can follow it. Whatever the fields are, the selector
has the text that they make together, in the mode that the marker tells; its name and its parameter
text are those of the record only if it comes back. -/
theorem toData_ofData_iff (settings : Settings)
    (hd : IsPair "name" name "value_text" valueText d) (hs : ofData settings d = .ok s) :
    s.text = (unmark name).1 ++ valueText ∧ s.name.mode = (unmark name).2 ∧
      (s.toData.same d = true ↔
        isName (unmark name).1.toList = true ∧ isSeparated valueText.toList = true) ∧
      (s.toData.same d = true ↔ s.name.value = (unmark name).1 ∧ s.valueText = valueText) := by
  rw [ofData_of_isPair settings hd] at hs
  obtain ⟨htext, hmode⟩ := text_of_parse (ok_of_mapError_ok hs)
  -- the marker goes with the mode, so the names agree where they do without it
  have hname : mark s.name.mode s.name.value = name ↔ s.name.value = (unmark name).1 := by
    constructor
    · rintro rfl
      rw [unmark_mark]
    · intro h
      rw [hmode, h, mark_unmark]
  have hback : s.toData.same d = true ↔ s.name.value = (unmark name).1 ∧ s.valueText = valueText := by
    rw [← hname]
    exact same_iff_of_isPair (by decide) hd
  refine ⟨htext, hmode, hback.trans ⟨?_, ?_⟩, hback⟩
  · rintro ⟨hvalue, rfl⟩
    exact ⟨hvalue ▸ s.name.isName_value, s.isSeparated_valueText⟩
  · rintro ⟨hn, hv⟩
    have htake := s.takeName_text
    rw [htext, String.toList_append,
      takeName_of_isName hn (not_isNamePart_of_isSeparated hv)] at htake
    obtain ⟨hvalue, hrest⟩ := Prod.mk.inj htake
    exact ⟨(String.toList_inj.1 hvalue).symm, (String.toList_inj.1 hrest).symm⟩

/-- A record with a marker, in the order in which it is not written. -/
theorem toData_ofData_iff_marked :
    ∃ d s, IsPair "name" "@F" "value_text" " (1)" d ∧ ofData {} d = .ok s ∧
      s.toData.same d = true := by
  have hpair : IsPair "name" "@F" "value_text" " (1)"
      (.ofFields [("value_text", .text " (1)"), ("name", .text "@F")]) := .inr rfl
  obtain ⟨s, hs⟩ := exists_of_isOk (x := ofData {} (.ofFields [("value_text", .text " (1)"),
    ("name", .text "@F")])) (by decide +kernel)
  exact ⟨_, s, hpair, hs, (toData_ofData_iff {} hpair hs).2.2.1.2 (by decide)⟩

/-- What should be a parameter text becomes a part of the name. -/
theorem text_moves_to_name :
    ∃ d s, IsPair "name" "f" "value_text" "g" d ∧ ofData {} d = .ok s ∧ s.name.value = "fg" ∧
      s.valueText = "" ∧ s.toData.same d = false := by
  have hmoves : (ofData {} (.ofFields [("name", .text "f"), ("value_text", .text "g")])).toOption.map
      (fun s => (s.name.value, s.valueText,
        s.toData.same (.ofFields [("name", .text "f"), ("value_text", .text "g")]))) =
      some ("fg", "", false) := by decide +kernel
  obtain ⟨s, hs, hparts⟩ := exists_of_toOption_map hmoves
  obtain ⟨hname, hparts⟩ := Prod.mk.inj hparts
  obtain ⟨hvalue, hsame⟩ := Prod.mk.inj hparts
  exact ⟨_, s, .inl rfl, hs, hname, hvalue, hsame⟩

end Selector

end FunctionCatalog
