import FunctionCatalog.Proofs.Number.Written
import FunctionCatalog.Proofs.Selector.Language
import FunctionCatalog.Selector.Format

/-
  FunctionCatalog: values that are written can be read.
  What `Value.format` writes for a value spells one parameter (`exists_spells_format`), and so what
  `Selector.withValues` puts behind a name is a parameter list (`exists_withValues`). How the
  parameters relate to the values is `Value.ReadAs`.
-/

namespace FunctionCatalog

/-! ## Single lexemes -/

namespace Selector

variable {c : Char} {n ws cs : List Char} {ls : List Lexeme}

theorem Lexes.cons_blank (hb : Text.isBlank c = true) (h : Lexes cs ls) : Lexes (c :: cs) ls := by
  obtain ⟨ps, hps, hmap⟩ := h.exists_lexemesFrom "" 1
  exact ⟨ps, by rw [lexemesFrom_blank hb]; exact hps, hmap⟩

/-- A name with white space behind it. -/
theorem lexes_name (hn : isName n = true) (hws : Text.allBlank ws = true) :
    Lexes (n ++ ws) [.name (String.ofList n)] :=
  lexes_name_iff.2 ⟨n, rfl, hn, [], ws, rfl, rfl, hws⟩

/-- A text that is one numeral. -/
theorem lexes_number {numeral : Numeral} {number : Number} (h : numeral.Writes cs)
    (hvalue : numeral.value? = some number) : Lexes cs [.number number] := by
  obtain ⟨hreadable, rfl⟩ := Numeral.value?_eq_some_iff.1 hvalue
  exact lexes_number_iff.2 ⟨numeral, cs, rfl, h, hreadable, [], [], by simp, rfl, rfl⟩

end Selector

/-! ## Written literals -/

namespace TextLiteral

theorem Writes.cons_escape {value cs : List Char} (c : Char) (h : Writes value cs) :
    Writes (c :: value) (escape c ++ cs) := by
  unfold escape
  split
  · next hc => subst hc; exact .escaped (by decide) h
  · next hq =>
    split
    · next hc => subst hc; exact .escaped (by decide) h
    · next hb =>
      split
      · next hc => subst hc; exact .escaped (by decide) h
      · split
        · next hc => subst hc; exact .escaped (by decide) h
        · split
          · next hc => subst hc; exact .escaped (by decide) h
          · split
            · next hc => subst hc; exact .escaped (by decide) h
            · exact .plain hq hb h

/-- What is written between the quotes stands for the text. -/
theorem writes_flatMap_escape (text : List Char) : Writes text (text.flatMap escape) := by
  induction text with
  | nil => exact .nil
  | cons c text ih =>
    rw [List.flatMap_cons]
    exact ih.cons_escape c

theorem lexes_write (text : String) : Selector.Lexes (write text).toList [.text text] := by
  refine Selector.lexes_text_iff.2 ⟨text.toList, text.toList.flatMap escape,
    String.ofList_toList.symm, writes_flatMap_escape _, [], [], ?_, rfl, rfl⟩
  simp [write]

end TextLiteral

/-! ## Written values -/

/-- The values that are written so that they can be read: texts, whole numbers that may be printed,
finite numbers, names that are not too long, and selectors with white space or a list that is read
after such a name. -/
def Value.IsFormattable (settings : Settings) : Value → Prop
  | .text _ => True
  | .mode _ => True
  | .int i => (Number.natChars i.natAbs).length ≤ Number.digitLimit
  | .double x => x.isFinite = true
  | .name n => n.Fits settings
  | .item (.selector s) =>
    s.name.Fits settings ∧
      (s.isBare = true ∨
        (Selector.isListText s.valueText.toList = true ∧ ∃ ps, s.parameters settings = .ok ps))
  | _ => False

/-- How a value comes back in a list that is read in a mode: a text, a mode and a number as a literal
of the same value, a name as a selector without parameters, a selector without the white space
around its parameters. -/
inductive Value.ReadAs (mode : CaseMode) : Value → Parameter → Prop
  | text (s : String) : ReadAs mode (.text s) (.text s)
  | mode (m : CaseMode) : ReadAs mode (.mode m) (.text m.text)
  | int (i : Int) : ReadAs mode (.int i) (.number (.int i))
  | double (x : Binary64) : ReadAs mode (.double x) (.number (.double x))
  | name (n : Name) : ReadAs mode (.name n) (.plain (n.inMode mode))
  | selector {s t : Selector} {arguments : List Parameter} (hname : t.name = s.name.inMode mode)
      (htext : t.valueText.toList = Text.trim s.valueText.toList) :
      ReadAs mode (.item (.selector s)) (.call t arguments)

namespace Parameter

variable {settings : Settings} {mode : CaseMode}

theorem lexes_intText {i : Int} (h : (Number.natChars i.natAbs).length ≤ Number.digitLimit) :
    Selector.Lexes (Number.intText i).toList [.number (.int i)] := by
  rw [Number.intText, String.toList_ofList]
  exact Selector.lexes_number (Numeral.writes_intChars i) (Numeral.value?_of_intChars h)

theorem lexes_doubleText {x : Binary64} (h : x.isFinite = true) :
    Selector.Lexes x.text.toList [.number (.double x)] := by
  obtain ⟨n, hwrites, hwhole, hdouble⟩ := Binary64.exists_writes_chars h
  have hvalue : n.value? = some (.double x) := by
    rw [Numeral.value?, if_neg (by simp [hwhole]), hdouble]
  rw [Binary64.text, String.toList_ofList]
  exact Selector.lexes_number hwrites hvalue

/-- A selector that is written spells a name or a name with its list. -/
theorem exists_spells_selector {s : Selector} (hfits : s.name.Fits settings)
    (h : s.isBare = true ∨
      (Selector.isListText s.valueText.toList = true ∧ ∃ ps, s.parameters settings = .ok ps))
    (mode : CaseMode) :
    ∃ p, Spells settings mode [p] s.text.toList ∧ Value.ReadAs mode (.item (.selector s)) p := by
  have hmake : Name.make settings (String.ofList s.name.value.toList) mode =
      .ok (s.name.inMode mode) := by
    rw [String.ofList_toList]
    exact Name.make_of_fits hfits
  have hplain (hblank : Text.allBlank s.valueText.toList = true) :
      ∃ p, Spells settings mode [p] (s.name.value.toList ++ s.valueText.toList) ∧
        Value.ReadAs mode (.item (.selector s)) p := by
    refine ⟨_, .plain (Selector.lexes_name s.name.isName_value hblank) hmake, .selector rfl ?_⟩
    rw [Text.trim_of_allBlank hblank]
    rfl
  rw [Selector.text, String.toList_append]
  rcases h with hbare | ⟨hlist, ps, hps⟩
  · exact hplain hbare
  · rw [Selector.parameters, if_pos hlist] at hps
    rcases spells_of_parse hps with ⟨-, hblank⟩ | ⟨a, b, c, hcs, ha, hb, hc⟩
    · exact hplain (Selector.lexes_nil_iff.1 hblank)
    · obtain ⟨qs, hqs⟩ := hb.exists_inMode mode
      have hname := Selector.lexes_name s.name.isName_value (Selector.lexes_nil_iff.1 ha)
      have htrim : Text.trim s.valueText.toList = '(' :: (b ++ [')']) := by
        rw [hcs]
        exact Text.trim_list (Selector.lexes_nil_iff.1 ha) (Selector.lexes_nil_iff.1 hc)
      refine ⟨.call (listed (s.name.inMode mode) b) qs, ?_, .selector rfl ?_⟩
      · rw [hcs, ← List.append_assoc]
        exact SpellsAll.call hname hmake hqs hc
      · rw [htrim, listed, String.toList_ofList]

/-- What is written for a value spells one parameter, as which the value is read. -/
theorem exists_spells_format {v : Value} (h : v.IsFormattable settings) (mode : CaseMode) :
    ∃ text p, v.format = .ok text ∧ Spells settings mode [p] text.toList ∧ v.ReadAs mode p := by
  cases v with
  | text s => exact ⟨_, _, rfl, .text (TextLiteral.lexes_write s), .text s⟩
  | mode m => exact ⟨_, _, rfl, .text (TextLiteral.lexes_write m.text), .mode m⟩
  | int i =>
    refine ⟨Number.intText i, _, ?_, .number (lexes_intText h), .int i⟩
    have hprint : intPrint i = .ok (Number.intText i) := by
      rw [intPrint, if_neg (Nat.not_lt.2 h)]
    simp only [Value.format, hprint]
  | double x =>
    refine ⟨x.text, _, ?_, .number (lexes_doubleText h), .double x⟩
    have hfinite : x.isFinite = true := h
    simp only [Value.format, hfinite, if_true]
  | name n =>
    have hmake : Name.make settings (String.ofList n.value.toList) mode = .ok (n.inMode mode) := by
      rw [String.ofList_toList]
      exact Name.make_of_fits h
    have hlexes : Selector.Lexes (n.value.toList ++ []) [.name (String.ofList n.value.toList)] :=
      Selector.lexes_name n.isName_value rfl
    rw [List.append_nil] at hlexes
    exact ⟨n.value, _, rfl, .plain hlexes hmake, .name n⟩
  | item i =>
    cases i with
    | selector s =>
      obtain ⟨p, hp, hread⟩ := exists_spells_selector h.1 h.2 mode
      exact ⟨s.text, p, rfl, hp, hread⟩
    | _ => exact absurd h id
  | _ => exact absurd h id

/-- White space in front changes nothing. -/
theorem Spells.cons_blank {vs : List Parameter} {c : Char} {cs : List Char}
    (hc : Text.isBlank c = true) (h : Spells settings mode vs cs) :
    Spells settings mode vs (c :: cs) := by
  induction h with
  | text h => exact .text (h.cons_blank hc)
  | number h => exact .number (h.cons_blank hc)
  | plain h hn => exact .plain (h.cons_blank hc) hn
  | empty ha hn hb hc' => exact .empty (ha.cons_blank hc) hn hb hc'
  | call ha hn hb hc' => exact .call (ha.cons_blank hc) hn hb hc'
  | cons _ hb iha _ => exact .cons iha hb

/-- The texts of values joined by commas spell as many parameters. -/
theorem exists_spells_join {v : Value} {vs : List Value}
    (h : ∀ w ∈ v :: vs, w.IsFormattable settings) (mode : CaseMode) :
    ∃ texts ps, (v :: vs).mapM Value.format = .ok texts ∧
      Spells settings mode ps (", ".intercalate texts).toList ∧
      List.Forall₂ (Value.ReadAs mode) (v :: vs) ps := by
  induction vs generalizing v with
  | nil =>
    obtain ⟨text, p, htext, hspells, hread⟩ := exists_spells_format (h v List.mem_cons_self) mode
    refine ⟨[text], [p], ?_, ?_, .cons hread .nil⟩
    · rw [List.mapM_cons, htext]
      rfl
    · rw [String.intercalate_singleton]
      exact hspells
  | cons w vs ih =>
    obtain ⟨text, p, htext, hspells, hread⟩ := exists_spells_format (h v List.mem_cons_self) mode
    obtain ⟨texts, ps, htexts, hrest, hreads⟩ := ih (fun u hu => h u (List.mem_cons_of_mem v hu))
    refine ⟨text :: texts, p :: ps, ?_, ?_, .cons hread hreads⟩
    · rw [List.mapM_cons, htext, htexts]
      rfl
    · have hne : texts ≠ [] := by
        rintro rfl
        rw [List.mapM_cons] at htexts
        obtain ⟨t, -, htail⟩ := exists_of_bind_ok htexts
        obtain ⟨ts, -, hend⟩ := exists_of_bind_ok htail
        cases hend
      rw [String.intercalate_cons_of_ne_nil hne, String.toList_append, String.toList_append,
        List.append_assoc]
      exact .cons hspells (hrest.cons_blank (by decide : Text.isBlank ' ' = true))

/-- What is written for values is one list that can be read in every mode. -/
theorem exists_formatAll {vs : List Value} (h : ∀ v ∈ vs, v.IsFormattable settings)
    (mode : CaseMode) :
    ∃ text ps b, Value.formatAll vs = .ok text ∧ text.toList = '(' :: (b ++ [')']) ∧
      SpellsAll settings mode ps b ∧ List.Forall₂ (Value.ReadAs mode) vs ps := by
  cases vs with
  | nil => exact ⟨"()", [], [], rfl, by decide, .inl ⟨rfl, Selector.lexes_nil⟩, .nil⟩
  | cons v vs =>
    obtain ⟨texts, ps, htexts, hspells, hreads⟩ := exists_spells_join h mode
    refine ⟨"(" ++ ", ".intercalate texts ++ ")", ps, (", ".intercalate texts).toList, ?_, ?_,
      .inr hspells, hreads⟩
    · simp only [Value.formatAll, htexts, bind, Except.bind]
    · simp

end Parameter

namespace Selector

variable {settings : Settings}

theorem valueText_withValueText {text : String} (h : isSeparated text.toList = true)
    (s : Selector) :
    (s.withValueText text).valueText = text ∧ (s.withValueText text).name = s.name := by
  have hmake : make s.name text =
      { name := s.name, valueText := text, isSeparated_valueText := h } := by
    rw [make, dif_pos h]
  rw [withValueText, hmake]
  split
  · next hsame =>
    have hvalue : text = s.valueText := by
      simpa using (Bool.and_eq_true_iff.1 hsame).2
    exact ⟨hvalue.symm, rfl⟩
  · exact ⟨rfl, rfl⟩

/-- A selector with values that are written so has none or one list behind its name. -/
theorem exists_withValues {vs : List Value} (h : ∀ v ∈ vs, v.IsFormattable settings)
    (s : Selector) :
    ∃ t ps, s.withValues vs = .ok t ∧ t.name = s.name ∧
      List.Forall₂ (Value.ReadAs s.name.mode) vs ps ∧
      ((t.valueText = "" ∧ ps = []) ∨ ∃ b, t.valueText.toList = '(' :: (b ++ [')']) ∧
        Parameter.SpellsAll settings s.name.mode ps b) := by
  cases vs with
  | nil =>
    obtain ⟨hvalue, hname⟩ := valueText_withValueText (by decide : isSeparated "".toList = true) s
    exact ⟨s.withValueText "", [], rfl, hname, .nil, .inl ⟨hvalue, rfl⟩⟩
  | cons v vs =>
    obtain ⟨text, ps, b, htext, hlist, hspells, hreads⟩ :=
      Parameter.exists_formatAll h s.name.mode
    have hseparated : isSeparated text.toList = true := by
      rw [hlist]
      rfl
    obtain ⟨hvalue, hname⟩ := valueText_withValueText hseparated s
    refine ⟨s.withValueText text, ps, ?_, hname, hreads, .inr ⟨b, ?_, hspells⟩⟩
    · simp only [withValues, List.isEmpty_cons, Bool.false_eq_true, if_false, htext, bind,
        Except.bind]
    · rw [hvalue, hlist]

end Selector

end FunctionCatalog
