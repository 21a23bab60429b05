import FunctionCatalog.Encoding.Json

/-
  FunctionCatalog: lists of texts as JSON and back.
  A character is written in UTF-16 units of its own (`units`): what is written for it is read as
  these units, and the units of a text are joined to its characters again. So a list of texts is
  read from what is written for it (`read_writeTexts`).
-/

namespace FunctionCatalog.Json

variable {cs rest : List Char}

/-! ## Characters -/

/-- The UTF-16 units of a character. -/
def units (c : Char) : List Nat :=
  if c.toNat < 0x10000 then [c.toNat]
  else [0xd800 + (c.toNat - 0x10000) / 0x400, 0xdc00 + (c.toNat - 0x10000) % 0x400]

/-- Units put in front of what has been read. -/
def prepend (us : List Nat) (r : List Nat × List Char) : List Nat × List Char :=
  (us ++ r.1, r.2)

theorem map_prepend (us vs : List Nat) (x : Option (List Nat × List Char)) :
    (x.map (prepend vs)).map (prepend us) = x.map (prepend (us ++ vs)) := by
  cases x <;> simp [prepend]

theorem hexValue?_digitChar {d : Nat} (h : d < 16) : hexValue? (Nat.digitChar d) = some d :=
  (by decide : ∀ d < 16, hexValue? (Nat.digitChar d) = some d) d h

theorem hexDigits_four (n : Nat) :
    Text.hexDigits 4 n = [Nat.digitChar (n / 4096 % 16), Nat.digitChar (n / 256 % 16),
      Nat.digitChar (n / 16 % 16), Nat.digitChar (n % 16)] := by
  simp [Text.hexDigits, List.range_succ]

theorem hexNumber?_hexDigits {n : Nat} (h : n < 0x10000) :
    hexNumber? (Text.hexDigits 4 n) = some n := by
  have hdigit : ∀ m, hexValue? (Nat.digitChar (m % 16)) = some (m % 16) :=
    fun m => hexValue?_digitChar (Nat.mod_lt m (by decide))
  have hn : 16 * (16 * (16 * (n / 4096 % 16) + n / 256 % 16) + n / 16 % 16) + n % 16 = n := by
    omega
  rw [hexDigits_four]
  simp [hexNumber?, hdigit, hn]

theorem readUnits_escapeUnit {n : Nat} (h : n < 0x10000) :
    readUnits (escapeUnit n ++ rest) = (readUnits rest).map (prepend [n]) := by
  have hnumber := hexNumber?_hexDigits h
  rw [hexDigits_four] at hnumber
  rw [escapeUnit, hexDigits_four]
  simp only [List.cons_append, List.nil_append, readUnits, hnumber]
  cases readUnits rest <;> rfl

theorem readUnits_simple {e c : Char} (he : unescape? e = some c) :
    readUnits ('\\' :: e :: rest) = (readUnits rest).map (prepend [c.toNat]) := by
  have hu : e ≠ 'u' := by
    rintro rfl
    cases he
  rw [readUnits, he]
  · cases readUnits rest <;> rfl
  · intro a b c d cs h
    exact absurd h hu

theorem readUnits_plain {c : Char} (hq : c ≠ '"') (hb : c ≠ '\\') (hc : 0x20 ≤ c.toNat) :
    readUnits (c :: rest) = (readUnits rest).map (prepend [c.toNat]) := by
  rw [readUnits]
  · rw [if_neg (by simp [hb, hc])]
    cases readUnits rest <;> rfl
  · exact hq
  · intro a b c d cs h
    exact absurd h hb
  · intro e cs h
    exact absurd h hb

/-- No character is half of a pair of units. -/
theorem toNat_cases (c : Char) :
    c.toNat < 0xd800 ∨ 0xdfff < c.toNat ∧ c.toNat < 0x110000 :=
  c.valid

/-- What is written for a character is read as its units. -/
theorem readUnits_escape (c : Char) (rest : List Char) :
    readUnits (escape c ++ rest) = (readUnits rest).map (prepend (units c)) := by
  have hsimple : ∀ e, unescape? e = some c → c.toNat < 0x10000 →
      readUnits (['\\', e] ++ rest) = (readUnits rest).map (prepend (units c)) := by
    intro e he hsmall
    rw [units, if_pos hsmall]
    exact readUnits_simple he
  unfold escape
  split
  · next h => subst h; exact hsimple _ rfl (by decide)
  next hquote =>
  split
  · next h => subst h; exact hsimple _ rfl (by decide)
  next hslash =>
  split
  · next h => subst h; exact hsimple _ rfl (by decide)
  split
  · next h => subst h; exact hsimple _ rfl (by decide)
  split
  · next h => subst h; exact hsimple _ rfl (by decide)
  split
  · next h => subst h; exact hsimple _ rfl (by decide)
  split
  · next h => subst h; exact hsimple _ rfl (by decide)
  split
  · next h =>
    simp only [Bool.and_eq_true, decide_eq_true_eq] at h
    rw [units, if_pos (by omega)]
    exact readUnits_plain hquote hslash h.1
  split
  · next h =>
    rw [units, if_pos h]
    exact readUnits_escapeUnit h
  · next h =>
    have hc := toNat_cases c
    rw [units, if_neg h, List.append_assoc, readUnits_escapeUnit (by omega),
      readUnits_escapeUnit (by omega), map_prepend]
    rfl

/-- The units of a text are joined to its characters. -/
theorem ofUnits_units (cs : List Char) : ofUnits (cs.flatMap units) = cs := by
  induction cs with
  | nil => rfl
  | cons c cs ih =>
    rw [List.flatMap_cons]
    by_cases hc : c.toNat < 0x10000
    · have hsingle : ¬ (0xd800 ≤ c.toNat ∧ c.toNat < 0xdc00) := by
        have hrange := toNat_cases c
        omega
      rw [units, if_pos hc, List.singleton_append]
      cases hus : cs.flatMap units with
      | nil =>
        rw [hus] at ih
        rw [ofUnits, Char.ofNat_toNat, ← ih]
        rfl
      | cons u us =>
        rw [hus] at ih
        rw [ofUnits, if_neg (by simp [hsingle]), ih, Char.ofNat_toNat]
    · have hrange := toNat_cases c
      have hjoin : 0x10000 + (0xd800 + (c.toNat - 0x10000) / 0x400 - 0xd800) * 0x400 +
          (0xdc00 + (c.toNat - 0x10000) % 0x400 - 0xdc00) = c.toNat := by
        omega
      have hpair : (0xd800 + (c.toNat - 0x10000) / 0x400) < 0xdc00 ∧
          (0xdc00 + (c.toNat - 0x10000) % 0x400) < 0xe000 := by
        omega
      rw [units, if_neg hc, List.cons_append, List.singleton_append, ofUnits,
        if_pos (by simp [hpair]), hjoin, ih, Char.ofNat_toNat]

/-! ## Texts -/

theorem readUnits_escapes (cs rest : List Char) :
    readUnits (cs.flatMap escape ++ '"' :: rest) = some (cs.flatMap units, rest) := by
  induction cs with
  | nil => rfl
  | cons c cs ih =>
    rw [List.flatMap_cons, List.append_assoc, readUnits_escape, ih]
    rfl

theorem readValue_textChars (budget : Nat) (s : String) (rest : List Char) :
    readValue (budget + 1) (textChars s ++ rest) = .ok (.text s, rest) := by
  have hread : readText (s.toList.flatMap escape ++ '"' :: rest) = some (s, rest) := by
    simp only [readText, readUnits_escapes, Option.map_some, ofUnits_units, String.ofList_toList]
  have hchars : textChars s ++ rest = '"' :: (s.toList.flatMap escape ++ '"' :: rest) := by
    simp [textChars]
  rw [hchars, readValue, hread]

/-! ## Lists of texts -/

/-- The text of a list, from behind its opening bracket. -/
def itemChars (t : String) (ts : List String) : List Char :=
  textChars t ++ ts.flatMap (fun u => ',' :: ' ' :: textChars u) ++ [']']

theorem intercalate_textChars (t : String) (ts : List String) :
    [',', ' '].intercalate ((t :: ts).map textChars) ++ [']'] = itemChars t ts := by
  induction ts generalizing t with
  | nil => simp [itemChars]
  | cons u ts ih =>
    rw [List.map_cons, List.map_cons, List.intercalate_cons_cons, ← List.map_cons,
      List.append_assoc, ih]
    simp [itemChars]

/-- Texts with commas between them are read as the items of a list. -/
theorem readItems_itemChars (budget : Nat) (t : String) (ts : List String)
    (h : ts.length + 1 < budget) :
    readItems budget (itemChars t ts) = .ok ((t :: ts).map .text, []) := by
  induction ts generalizing t budget with
  | nil =>
    obtain ⟨b, rfl⟩ : ∃ b, budget = b + 2 := Nat.exists_eq_add_of_le' h
    have hchars : itemChars t [] = textChars t ++ [']'] := by simp [itemChars]
    rw [hchars, readItems, readValue_textChars]
    rfl
  | cons u ts ih =>
    obtain ⟨b, rfl⟩ : ∃ b, budget = b + 2 := 
      Nat.exists_eq_add_of_le' (Nat.le_trans (Nat.le_add_left 2 _) (Nat.le_of_lt h))
    have hchars : itemChars t (u :: ts) = textChars t ++ ',' :: ' ' :: itemChars u ts := by
      simp [itemChars]
    have hrest : readItems (b + 1) (skipSpace (' ' :: itemChars u ts)) =
        .ok ((u :: ts).map .text, []) := ih (b + 1) u (Nat.lt_of_succ_lt_succ h)
    rw [hchars, readItems, readValue_textChars]
    show (readItems (b + 1) (skipSpace (' ' :: itemChars u ts))).bind _ = _
    rw [hrest]
    rfl

theorem length_le_itemChars (t : String) (ts : List String) :
    ts.length + 1 ≤ (itemChars t ts).length := by
  have hflat : ts.length ≤ (ts.flatMap (fun u => ',' :: ' ' :: textChars u)).length := by
    induction ts with
    | nil => exact Nat.le_refl 0
    | cons u ts ih =>
      rw [List.flatMap_cons]
      simp only [List.length_append, List.length_cons]
      omega
  simp only [itemChars, List.length_append, List.length_cons, List.length_nil]
  omega

/-- A list of texts is read from what is written for it. -/
theorem read_writeTexts (texts : List String) :
    read (writeTexts texts) = .ok (.list (texts.map .text)) := by
  cases texts with
  | nil => rfl
  | cons t ts =>
    have hchars : (writeTexts (t :: ts)).toList = '[' :: itemChars t ts := by
      rw [writeTexts, String.toList_ofList, List.cons_append, intercalate_textChars]
    have hlength := length_le_itemChars t ts
    have hitems := readItems_itemChars (2 * (itemChars t ts).length + 3) t ts (by omega)
    have hvalue : readValue (2 * ('[' :: itemChars t ts).length + 2)
        (skipSpace ('[' :: itemChars t ts)) = .ok (.list ((t :: ts).map .text), []) := by
      show (readItems (2 * (itemChars t ts).length + 3) (itemChars t ts)).map _ = _
      rw [hitems]
      rfl
    rw [read, hchars]
    simp only [hvalue, bind, Except.bind]
    rfl

end FunctionCatalog.Json
