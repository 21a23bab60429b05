import FunctionCatalog.Proofs.Selector.Grammar
import FunctionCatalog.Proofs.Selector.Token

/-
  FunctionCatalog: the language of parameter lists.
  `Parameter.Writes` is the grammar of the values of a list, down to single characters and with
  white space about each token; `Bounds` says which numerals and which names a text may hold. The
  texts that the parser accepts are the blank ones and those with one list in the bounds of the
  settings, and the parameters are those that the text writes (`parse_eq_ok_iff_writes`).
-/

namespace FunctionCatalog

/-- The name that the characters are, in a mode. -/
def Name.ofChars (mode : CaseMode) (w : List Char) (h : isName w = true) : Name :=
  { value := String.ofList w
    mode
    isName_value := by rw [String.toList_ofList]; exact h }

namespace Name

variable {settings : Settings} {mode : CaseMode} {w : List Char} {n : Name}

theorem make_ofList (h : isName w = true) (hlimit : (w.length : Int) ≤ settings.nameLimit) :
    make settings (String.ofList w) mode = .ok (ofChars mode w h) := by
  have hfits : (ofChars mode w h).Fits settings := by
    rw [Fits, ofChars, String.toList_ofList]
    exact hlimit
  exact make_of_fits hfits

theorem exists_of_make_ofList (h : make settings (String.ofList w) mode = .ok n) :
    ∃ hw : isName w = true, (w.length : Int) ≤ settings.nameLimit ∧ n = ofChars mode w hw := by
  have hw := isName_of_make h
  have hlimit := (make_eq_ok h).2.2
  rw [Fits, (make_eq_ok h).1, String.toList_ofList] at hlimit
  rw [make_ofList hw hlimit] at h
  exact ⟨hw, hlimit, (Except.ok.inj h).symm⟩

theorem make_ofList_of_long (h : isName w = true) (hlimit : settings.nameLimit < w.length) :
    make settings (String.ofList w) mode =
      .error ⟨String.ofList w, settings.nameLimit, .tooLong w.length settings.nameLimit⟩ := by
  unfold make
  simp only [String.toList_ofList, if_neg (ne_nil_of_isName h), if_pos hlimit]

end Name

/-! ## Tokens with white space about them -/

namespace Selector

variable {a b cs rest : List Char} {l : Lexeme} {ls : List Lexeme} {p : Char}

/-- No token goes on past this character: it is white space, a parenthesis or a comma. -/
def Separates (c : Char) : Prop :=
  Text.isBlank c = true ∨ ∃ l, Lexeme.ofPunctuation? c = some l

theorem Separates.ends {c : Char} (h : Separates c) : Numeral.Ends c := by
  rcases h with hb | ⟨l, hl⟩
  · exact Numeral.ends_of_isBlank hb
  · exact Lexeme.ends_of_ofPunctuation? hl

theorem Separates.not_isNamePart {c : Char} (h : Separates c) : isNamePart c = false := by
  rcases h with hb | ⟨l, hl⟩
  · exact not_isNamePart_of_isBlank hb
  · exact Lexeme.not_isNamePart_of_ofPunctuation? hl

theorem separates_append (hb : Text.allBlank b = true) (hrest : ∀ c ∈ rest.head?, Separates c) :
    ∀ c ∈ (b ++ rest).head?, Separates c := by
  cases b with
  | nil => exact hrest
  | cons d b =>
    intro c hc
    cases hc
    exact .inl (List.all_eq_true.1 hb d List.mem_cons_self)

theorem separates_of_allBlank (hb : Text.allBlank b = true) : ∀ c ∈ b.head?, Separates c := by
  have happend : ∀ c ∈ (b ++ []).head?, Separates c := separates_append hb (by simp)
  rwa [List.append_nil] at happend

/-- The characters `w` with white space before and after them. -/
def Padded (w cs : List Char) : Prop :=
  ∃ a b, cs = a ++ (w ++ b) ∧ Text.allBlank a = true ∧ Text.allBlank b = true

theorem tokens_append_blank (ha : Text.allBlank a = true) (h : Tokens ls cs rest) :
    Tokens ls (a ++ cs) rest := by
  induction a with
  | nil => exact h
  | cons c a ih =>
    obtain ⟨hc, ha⟩ := Bool.and_eq_true_iff.1 ha
    exact .blank hc (ih ha)

theorem Tokens.exists_of_cons (h : Tokens (l :: ls) cs rest) :
    ∃ a front mid, cs = a ++ (front ++ mid) ∧ Text.allBlank a = true ∧ Token l front mid ∧
      Tokens ls mid rest := by
  generalize hms : l :: ls = ms at h
  induction h with
  | nil => cases hms
  | @blank _ c cs rest hc _ ih =>
    obtain ⟨a, front, mid, rfl, ha, htoken, htail⟩ := ih hms
    exact ⟨c :: a, front, mid, rfl, Bool.and_eq_true_iff.2 ⟨hc, ha⟩, htoken, htail⟩
  | @cons _ _ front mid rest htoken htail _ =>
    cases hms
    exact ⟨[], front, mid, rfl, rfl, htoken, htail⟩

theorem lexes_singleton_iff :
    Lexes cs [l] ↔ ∃ a front b, cs = a ++ (front ++ b) ∧ Text.allBlank a = true ∧
      Text.allBlank b = true ∧ Token l front b := by
  rw [lexes_iff]
  constructor
  · intro h
    obtain ⟨a, front, b, rfl, ha, htoken, hb⟩ := h.exists_of_cons
    exact ⟨a, front, b, rfl, ha, lexes_nil_iff.1 (lexes_iff.2 hb), htoken⟩
  · rintro ⟨a, front, b, rfl, ha, hb, htoken⟩
    exact tokens_append_blank ha (.cons htoken (lexes_iff.1 (lexes_nil_iff.2 hb)))

theorem lexes_text_iff {s : String} :
    Lexes cs [.text s] ↔ ∃ value body, s = String.ofList value ∧ TextLiteral.Writes value body ∧
      Padded ('"' :: (body ++ ['"'])) cs := by
  rw [lexes_singleton_iff]
  constructor
  · rintro ⟨a, front, b, rfl, ha, hb, htoken⟩
    cases htoken with
    | punctuation h => rcases Lexeme.of_ofPunctuation? h with ⟨-, h⟩ | ⟨-, h⟩ | ⟨-, h⟩ <;> cases h
    | @text value body _ h => exact ⟨value, body, rfl, h, a, b, rfl, ha, hb⟩
  · rintro ⟨value, body, rfl, h, a, b, rfl, ha, hb⟩
    exact ⟨a, _, b, rfl, ha, hb, .text h⟩

theorem lexes_number_iff {x : Number} :
    Lexes cs [.number x] ↔ ∃ (n : Numeral) (w : List Char), x = n.number ∧ n.Writes w ∧
      n.IsReadable ∧ Padded w cs := by
  rw [lexes_singleton_iff]
  constructor
  · rintro ⟨a, front, b, rfl, ha, hb, htoken⟩
    cases htoken with
    | punctuation h => rcases Lexeme.of_ofPunctuation? h with ⟨-, h⟩ | ⟨-, h⟩ | ⟨-, h⟩ <;> cases h
    | @number n _ _ h hn => exact ⟨n, front, rfl, h.writes, hn, a, b, rfl, ha, hb⟩
  · rintro ⟨n, w, rfl, h, hn, a, b, rfl, ha, hb⟩
    have hlongest := h.longest fun c hc => (separates_of_allBlank hb c hc).ends
    exact ⟨a, w, b, rfl, ha, hb, .number hlongest hn⟩

theorem lexes_name_iff {s : String} :
    Lexes cs [.name s] ↔ ∃ w, s = String.ofList w ∧ isName w = true ∧ Padded w cs := by
  rw [lexes_singleton_iff]
  constructor
  · rintro ⟨a, front, b, rfl, ha, hb, htoken⟩
    cases htoken with
    | punctuation h => rcases Lexeme.of_ofPunctuation? h with ⟨-, h⟩ | ⟨-, h⟩ | ⟨-, h⟩ <;> cases h
    | name h hrest => exact ⟨front, rfl, h, a, b, rfl, ha, hb⟩
  · rintro ⟨w, rfl, h, a, b, rfl, ha, hb⟩
    exact ⟨a, w, b, rfl, ha, hb, .name h fun c hc => (separates_of_allBlank hb c hc).not_isNamePart⟩

end Selector

/-! ## The grammar -/

/-- Which numerals and which names a text may hold. -/
structure Bounds where
  numeral : Numeral → Prop
  name : List Char → Prop

namespace Bounds

/-- All numerals and names. -/
def unbounded : Bounds where
  numeral _ := True
  name _ := True

/-- Numerals that may be read, and names of any length. -/
def readable : Bounds where
  numeral := Numeral.IsReadable
  name _ := True

/-- Numerals that may be read, and names up to the limit. -/
def within (settings : Settings) : Bounds where
  numeral := Numeral.IsReadable
  name w := (w.length : Int) ≤ settings.nameLimit

end Bounds

namespace Parameter

open Selector (Padded)

variable {bounds : Bounds} {settings : Settings} {mode : CaseMode}
variable {vs : List Parameter} {cs : List Char}

/-- The characters write one or more values with a comma after each but the last: a value is a text
literal, a number, a name, or a name and a list. -/
inductive Writes (bounds : Bounds) (mode : CaseMode) : List Parameter → List Char → Prop
  | text {value body cs : List Char} (h : TextLiteral.Writes value body)
      (hcs : Padded ('"' :: (body ++ ['"'])) cs) :
      Writes bounds mode [.text (String.ofList value)] cs
  | number {n : Numeral} {w cs : List Char} (h : n.Writes w) (hn : bounds.numeral n)
      (hcs : Padded w cs) : Writes bounds mode [.number n.number] cs
  | plain {w cs : List Char} (h : isName w = true) (hw : bounds.name w) (hcs : Padded w cs) :
      Writes bounds mode [plain (Name.ofChars mode w h)] cs
  | empty {w a b c : List Char} (h : isName w = true) (hw : bounds.name w) (ha : Padded w a)
      (hb : Text.allBlank b = true) (hc : Text.allBlank c = true) :
      Writes bounds mode [.call (listed (Name.ofChars mode w h) b) []]
        (a ++ '(' :: (b ++ ')' :: c))
  | call {w a b c : List Char} {arguments : List Parameter} (h : isName w = true)
      (hw : bounds.name w) (ha : Padded w a) (hb : Writes bounds mode arguments b)
      (hc : Text.allBlank c = true) :
      Writes bounds mode [.call (listed (Name.ofChars mode w h) b) arguments]
        (a ++ '(' :: (b ++ ')' :: c))
  | cons {a b : List Char} {v : Parameter} {vs : List Parameter} (ha : Writes bounds mode [v] a)
      (hb : Writes bounds mode vs b) : Writes bounds mode (v :: vs) (a ++ ',' :: b)

/-- The text is one list of the values, with white space about it. -/
def WritesList (bounds : Bounds) (mode : CaseMode) (vs : List Parameter) (cs : List Char) : Prop :=
  ∃ a b c, cs = a ++ '(' :: (b ++ ')' :: c) ∧ Text.allBlank a = true ∧ Text.allBlank c = true ∧
    ((vs = [] ∧ Text.allBlank b = true) ∨ Writes bounds mode vs b)

/-- The text is blank or one list. -/
def WritesText (bounds : Bounds) (mode : CaseMode) (vs : List Parameter) (cs : List Char) : Prop :=
  (vs = [] ∧ Text.allBlank cs = true) ∨ WritesList bounds mode vs cs

/-- A text in narrower bounds is one in wider bounds. -/
theorem Writes.mono {wider : Bounds} (hnumeral : ∀ n, bounds.numeral n → wider.numeral n)
    (hname : ∀ w, bounds.name w → wider.name w) (h : Writes bounds mode vs cs) :
    Writes wider mode vs cs := by
  induction h with
  | text h hcs => exact .text h hcs
  | number h hn hcs => exact .number h (hnumeral _ hn) hcs
  | plain h hw hcs => exact .plain h (hname _ hw) hcs
  | empty h hw ha hb hc => exact .empty h (hname _ hw) ha hb hc
  | call h hw ha _ hc ih => exact .call h (hname _ hw) ha ih hc
  | cons _ _ iha ihb => exact .cons iha ihb

theorem WritesText.mono {wider : Bounds} (hnumeral : ∀ n, bounds.numeral n → wider.numeral n)
    (hname : ∀ w, bounds.name w → wider.name w) (h : WritesText bounds mode vs cs) :
    WritesText wider mode vs cs := by
  rcases h with hblank | ⟨a, b, c, rfl, ha, hc, hb⟩
  · exact .inl hblank
  · exact .inr ⟨a, b, c, rfl, ha, hc, hb.imp id (Writes.mono hnumeral hname)⟩

/-! ## The parser accepts the language -/

theorem Writes.spells (h : Writes (.within settings) mode vs cs) : Spells settings mode vs cs := by
  induction h with
  | text h hcs => exact .text (Selector.lexes_text_iff.2 ⟨_, _, rfl, h, hcs⟩)
  | number h hn hcs => exact .number (Selector.lexes_number_iff.2 ⟨_, _, rfl, h, hn, hcs⟩)
  | plain h hw hcs =>
    exact .plain (Selector.lexes_name_iff.2 ⟨_, rfl, h, hcs⟩) (Name.make_ofList h hw)
  | empty h hw ha hb hc =>
    exact .empty (Selector.lexes_name_iff.2 ⟨_, rfl, h, ha⟩) (Name.make_ofList h hw)
      (Selector.lexes_nil_iff.2 hb) (Selector.lexes_nil_iff.2 hc)
  | call h hw ha _ hc ih =>
    exact .call (Selector.lexes_name_iff.2 ⟨_, rfl, h, ha⟩) (Name.make_ofList h hw) ih
      (Selector.lexes_nil_iff.2 hc)
  | cons _ _ iha ihb => exact .cons iha ihb

theorem Spells.writes (h : Spells settings mode vs cs) : Writes (.within settings) mode vs cs := by
  induction h with
  | text h =>
    obtain ⟨value, body, rfl, hbody, hcs⟩ := Selector.lexes_text_iff.1 h
    exact .text hbody hcs
  | number h =>
    obtain ⟨n, w, rfl, hw, hn, hcs⟩ := Selector.lexes_number_iff.1 h
    exact .number hw hn hcs
  | plain h hn =>
    obtain ⟨w, rfl, -, hcs⟩ := Selector.lexes_name_iff.1 h
    obtain ⟨hname, hw, rfl⟩ := Name.exists_of_make_ofList hn
    exact .plain hname hw hcs
  | empty ha hn hb hc =>
    obtain ⟨w, rfl, -, ha⟩ := Selector.lexes_name_iff.1 ha
    obtain ⟨hname, hw, rfl⟩ := Name.exists_of_make_ofList hn
    exact .empty hname hw ha (Selector.lexes_nil_iff.1 hb) (Selector.lexes_nil_iff.1 hc)
  | call ha hn _ hc ih =>
    obtain ⟨w, rfl, -, ha⟩ := Selector.lexes_name_iff.1 ha
    obtain ⟨hname, hw, rfl⟩ := Name.exists_of_make_ofList hn
    exact .call hname hw ha ih (Selector.lexes_nil_iff.1 hc)
  | cons _ _ iha ihb => exact .cons iha ihb

theorem spellsList_iff :
    SpellsList settings mode vs cs ↔ WritesList (.within settings) mode vs cs := by
  constructor
  · rintro ⟨a, b, c, rfl, ha, hb, hc⟩
    exact ⟨a, b, c, rfl, Selector.lexes_nil_iff.1 ha, Selector.lexes_nil_iff.1 hc,
      hb.imp (And.imp_right Selector.lexes_nil_iff.1) Spells.writes⟩
  · rintro ⟨a, b, c, rfl, ha, hc, hb⟩
    exact ⟨a, b, c, rfl, Selector.lexes_nil_iff.2 ha,
      hb.imp (And.imp_right Selector.lexes_nil_iff.2) Writes.spells, Selector.lexes_nil_iff.2 hc⟩

/-- The parser accepts the texts of the language, and reads what they write. -/
theorem parse_eq_ok_iff_writes {text : String} :
    parse settings mode text = .ok vs ↔ WritesText (.within settings) mode vs text.toList := by
  rw [parse_eq_ok_iff, Selector.lexes_nil_iff, spellsList_iff, WritesText]

end Parameter

end FunctionCatalog
