import FunctionCatalog.Proofs.Alias.Scanners
import FunctionCatalog.Proofs.Selector.Parse

/-
  FunctionCatalog: reading one entry of an alias text.
  Each step of `parseEntry` on what an alias is written as, up to the whole entry: an alias whose
  names are not too long and whose target reads again is read from its text (`exists_parseEntry`).
-/

namespace FunctionCatalog.Alias

variable {settings : Settings} {mode : CaseMode} {offset : Nat} {name : Name}
  {entry ws n rest : List Char}

theorem not_isNamePart_of_isSetApart (h : isSetApart rest = true) :
    ∀ c ∈ rest.head?, isNamePart c = false := by
  cases rest with
  | nil => simp
  | cons d rest =>
    intro c hc
    cases hc
    exact not_isNamePart_of_isBlank h

/-! ## The steps on a written entry -/

theorem readName_of_make (hws : Text.allBlank ws = true)
    (hmake : Name.make settings (String.ofList n) mode = .ok name)
    (hrest : isSetApart rest = true) :
    readName settings mode offset (ws ++ (n ++ rest)) = .ok (name, rest) := by
  have hn := Name.isName_of_make hmake
  have hfront : Text.trimLeft (ws ++ (n ++ rest)) = n ++ rest :=
    Text.trimLeft_append hws (not_isBlank_head_of_isName hn rest)
  have htake := takeName_of_isName hn (not_isNamePart_of_isSetApart hrest)
  have hne : n ++ rest ≠ [] := by simp [ne_nil_of_isName hn]
  simp only [readName, hfront, htake, if_neg hne, if_neg (ne_nil_of_isName hn), if_pos hrest, hmake]

/-- A target without a list ends with its name. -/
theorem takeTarget_name (hn : isName n = true) (hrest : isSetApart rest = true)
    (hparens : (Text.trimLeft rest).head? ≠ some '(') :
    takeTarget offset entry (n ++ rest) = .ok (n, rest) := by
  have htake := takeName_of_isName hn (not_isNamePart_of_isSetApart hrest)
  simp only [takeTarget, htake, if_neg (ne_nil_of_isName hn), if_neg hparens, if_pos hrest]

/-- A target with a list ends with the parenthesis that closes it. -/
theorem takeTarget_list {b : List Char} (hn : isName n = true) (hws : Text.allBlank ws = true)
    (hb : Closed true b) :
    takeTarget offset entry (n ++ (ws ++ '(' :: (b ++ [')'])) ++ rest) =
      .ok (n ++ (ws ++ '(' :: (b ++ [')'])), rest) := by
  have hsplit : n ++ (ws ++ '(' :: (b ++ [')'])) ++ rest =
      n ++ (ws ++ '(' :: (b ++ ')' :: rest)) := by
    simp
  have hparens : Text.trimLeft (ws ++ '(' :: (b ++ ')' :: rest)) = '(' :: (b ++ ')' :: rest) :=
    Text.trimLeft_append hws (by intro c hc; cases hc; decide)
  have hhead : ∀ c ∈ (ws ++ '(' :: (b ++ ')' :: rest)).head?, isNamePart c = false := by
    cases ws with
    | nil => intro c hc; cases hc; decide
    | cons d ws =>
      intro c hc
      cases hc
      exact not_isNamePart_of_isBlank (Bool.and_eq_true_iff.1 hws).1
  have htake := takeName_of_isName hn hhead
  have hlen : (n ++ (ws ++ '(' :: (b ++ ')' :: rest))).length - rest.length =
      (n ++ (ws ++ '(' :: (b ++ [')']))).length := by
    simp only [List.length_append, List.length_cons, List.length_nil]
    omega
  rw [hsplit]
  simp only [takeTarget, htake, if_neg (ne_nil_of_isName hn), hparens, List.head?_cons, if_pos,
    takeParens_list hb, hlen]
  rw [← hsplit, List.take_left']
  rfl

/-- A token that is set apart is read whole; white space may follow it. -/
theorem readToken_append {gap token : List Char} (hgap : gap ≠ [])
    (hblank : Text.allBlank gap = true) (hne : token ≠ [])
    (hall : ∀ c ∈ token, Text.isBlank c = false) (hws : Text.allBlank ws = true) :
    readToken offset entry (gap ++ (token ++ ws)) = .ok (some (String.ofList token)) := by
  have hhead : ∀ c ∈ (token ++ ws).head?, Text.isBlank c = false := by
    obtain ⟨c, token, rfl⟩ := List.exists_cons_of_ne_nil hne
    intro d hd
    cases hd
    exact hall c List.mem_cons_self
  have htrim : Text.trimLeft (gap ++ (token ++ ws)) = token ++ ws :=
    Text.trimLeft_append hblank hhead
  have hplain : ∀ c ∈ token, (!Text.isBlank c) = true := fun c hc => by simp [hall c hc]
  have hsplit : ws.takeWhile (fun c => !Text.isBlank c) = [] ∧
      ws.dropWhile (fun c => !Text.isBlank c) = ws := by
    cases ws with
    | nil => exact ⟨rfl, rfl⟩
    | cons c ws =>
      have hc : Text.isBlank c = true := (Bool.and_eq_true_iff.1 hws).1
      exact ⟨List.takeWhile_cons_of_neg (by simp [hc]), List.dropWhile_cons_of_neg (by simp [hc])⟩
  have hlength : (token ++ ws).length ≠ (gap ++ (token ++ ws)).length := by
    have hpos := List.length_pos_iff.2 hgap
    simp only [List.length_append]
    omega
  simp only [readToken, htrim, List.takeWhile_append_of_pos hplain,
    List.dropWhile_append_of_pos hplain, hsplit, List.append_nil, Text.trimLeft_eq_nil_iff.2 hws,
    if_neg (List.append_ne_nil_of_left_ne_nil hne ws), if_neg hlength, if_pos]

/-- A token behind a space is read whole. -/
theorem readToken_cons {token : List Char} (htoken : isToken aliasReserved token = true) :
    readToken offset entry (' ' :: token) = .ok (some (String.ofList token)) := by
  obtain ⟨hne, hall⟩ := Bool.and_eq_true_iff.1 htoken
  have hplain : ∀ c ∈ token, Text.isBlank c = false := fun c hc => by
    simpa using (Bool.and_eq_true_iff.1 (List.all_eq_true.1 hall c hc)).1
  have hread : readToken offset entry ([' '] ++ (token ++ [])) =
      .ok (some (String.ofList token)) :=
    readToken_append (List.cons_ne_nil _ _) rfl (by simpa using hne) hplain rfl
  rwa [List.append_nil] at hread

theorem readToken_nil : readToken offset entry [] = .ok none := rfl

/-! ## Targets that can be read again -/

/-- Nothing stands after the name of the target or, behind white space, one list that is read, and
nothing after the parenthesis that closes the list. -/
def ReadsAgain (settings : Settings) (s : Selector) : Prop :=
  s.valueText = "" ∨
    (Selector.isListText s.valueText.toList = true ∧ (∃ ps, s.parameters settings = .ok ps) ∧
      s.valueText.toList.getLast? = some ')')

/-- The list of such a target, by its characters. -/
theorem exists_list_of_getLast {s : Selector} {ps : List Parameter}
    (hlist : Selector.isListText s.valueText.toList = true)
    (hps : s.parameters settings = .ok ps) (hlast : s.valueText.toList.getLast? = some ')') :
    ∃ ws b, s.valueText.toList = ws ++ '(' :: (b ++ [')']) ∧ Text.allBlank ws = true ∧
      Parameter.SpellsAll settings s.name.mode ps b := by
  rw [Selector.parameters, if_pos hlist] at hps
  have hblank : ∀ cs, Text.allBlank cs = true → cs.getLast? ≠ some ')' := by
    intro cs hcs heq
    have hclose := List.all_eq_true.1 hcs ')' (List.mem_of_getLast? heq)
    exact absurd hclose (by decide)
  rcases Parameter.spells_of_parse hps with ⟨-, hnil⟩ | ⟨a, b, c, hcs, ha, hb, hc⟩
  · exact absurd hlast (hblank _ (Selector.lexes_nil_iff.1 hnil))
  · have hc := Selector.lexes_nil_iff.1 hc
    cases c with
    | nil => exact ⟨a, b, hcs, Selector.lexes_nil_iff.1 ha, hb⟩
    | cons d c =>
      refine absurd ?_ (hblank _ hc)
      have hsplit : s.valueText.toList = (a ++ '(' :: (b ++ [')'])) ++ d :: c := by simp [hcs]
      rw [← hlast, hsplit, List.getLast?_append, List.getLast?_cons, Option.some_or]

theorem exists_parse_inMode {s : Selector} (h : ReadsAgain settings s) (mode : CaseMode)
    (hlist : Selector.isListText s.valueText.toList = true) :
    ∃ ps, Parameter.parse settings mode (String.ofList s.valueText.toList) = .ok ps := by
  rcases h with h | ⟨-, ⟨ps, hps⟩, hlast⟩
  · rw [h] at hlist
    cases hlist
  · obtain ⟨ws, b, heq, hws, hb⟩ := exists_list_of_getLast hlist hps hlast
    obtain ⟨qs, hqs⟩ := hb.exists_inMode mode
    refine ⟨qs, Parameter.parse_of_spellsList ⟨ws, b, [], ?_, Selector.lexes_nil_iff.2 hws, hqs,
      Selector.lexes_nil⟩⟩
    rw [String.toList_ofList, heq]

/-- What is written for a token. -/
def tokenChars : Option String → List Char
  | none => []
  | some token => ' ' :: token.toList

theorem isSetApart_tokenChars (token : Option String) : isSetApart (tokenChars token) = true := by
  cases token with
  | none => rfl
  | some t => exact (by decide : Text.isBlank ' ' = true)

/-- No token looks like a parameter list. -/
theorem head_trimLeft_tokenChars {token : Option String} (h : tokenFits token = true) :
    (Text.trimLeft (tokenChars token)).head? ≠ some '(' := by
  cases token with
  | none => simp [tokenChars, Text.trimLeft]
  | some t =>
    obtain ⟨-, hall⟩ := Bool.and_eq_true_iff.1 h
    intro hhead
    have hmem : '(' ∈ tokenChars (some t) :=
      (List.dropWhile_sublist Text.isBlank).subset (List.mem_of_mem_head? hhead)
    rcases List.mem_cons.1 hmem with heq | hmem
    · exact absurd heq (by decide)
    · exact absurd (List.all_eq_true.1 hall _ hmem) (by decide)

theorem readToken_tokenChars {token : Option String} (h : tokenFits token = true) :
    readToken offset entry (tokenChars token) = .ok token := by
  cases token with
  | none => exact readToken_nil
  | some t => rw [tokenChars, readToken_cons h, String.ofList_toList]

theorem takeTarget_of_readsAgain {s : Selector} {token : Option String}
    (hs : ReadsAgain settings s) (htoken : tokenFits token = true) :
    takeTarget offset entry
        (s.name.value.toList ++ s.valueText.toList ++ tokenChars token) =
      .ok (s.name.value.toList ++ s.valueText.toList, tokenChars token) := by
  rcases hs with h | ⟨hlist, ⟨ps, hps⟩, hlast⟩
  · rw [h, String.toList_empty, List.append_nil]
    exact takeTarget_name s.name.isName_value (isSetApart_tokenChars token)
      (head_trimLeft_tokenChars htoken)
  · obtain ⟨ws, b, heq, hws, hb⟩ := exists_list_of_getLast hlist hps hlast
    rw [heq]
    exact takeTarget_list s.name.isName_value hws hb.closed

theorem readTarget_of_readsAgain {s : Selector} (mode : CaseMode) (offset : Nat)
    (entry target : List Char) (hs : ReadsAgain settings s) (hfits : s.name.Fits settings) :
    ∃ t, readTarget settings mode offset entry target
        (s.name.value.toList ++ s.valueText.toList) = .ok t ∧
      t.name = s.name.inMode mode ∧ t.valueText = s.valueText := by
  have hmake : Name.make settings (String.ofList s.name.value.toList) mode =
      .ok (s.name.inMode mode) := by
    rw [String.ofList_toList]
    exact Name.make_of_fits hfits
  obtain ⟨t, ht, hname, hvalue⟩ := Selector.exists_parse s.isSeparated_valueText
    (exists_parse_inMode hs mode) hmake
  refine ⟨t, ?_, hname, by rw [hvalue, String.ofList_toList]⟩
  rw [readTarget, ht]

/-! ## A whole entry -/

/-- What an alias says, apart from how its names compare. -/
structure Wording where
  name : String
  kind : AliasKind
  target : Option (String × String)
  token : Option String
deriving DecidableEq

def wording (a : Alias) : Wording where
  name := a.name.value
  kind := a.kind
  target := a.target.map (fun s => (s.name.value, s.valueText))
  token := a.token

/-- The text of a wording. -/
def Wording.text (w : Wording) : String :=
  match w.kind, w.target with
  | .rename, some t => w.name ++ " " ++ t.1
  | .selector, some t =>
    w.name ++ " " ++ (t.1 ++ t.2) ++
      match w.token with
      | none => ""
      | some token => " " ++ token
  | _, _ => w.name

theorem text_eq_wording_text (a : Alias) : a.text = a.wording.text := by
  cases htarget : a.target with
  | none => cases hkind : a.kind <;> simp [Alias.text, Wording.text, wording, htarget, hkind]
  | some s =>
    cases hkind : a.kind <;> cases htoken : a.token <;>
      simp [Alias.text, Wording.text, wording, htarget, hkind, htoken, Selector.text]

/-- The names of an alias are not too long and its target reads again. -/
structure Rereads (settings : Settings) (a : Alias) : Prop where
  name : a.name.Fits settings
  target : ∀ s, a.target = some s → s.name.Fits settings ∧ ReadsAgain settings s

/-- What is written for a target and a token. -/
def targetChars : Option Selector → Option String → List Char
  | none, _ => []
  | some s, token => ' ' :: (s.name.value.toList ++ s.valueText.toList ++ tokenChars token)

/-- The text of an alias is its name with the target and the token as they are. -/
theorem toList_text {a : Alias} (h : a.Rereads settings) :
    a.text.toList = a.name.value.toList ++ targetChars a.target a.token := by
  obtain ⟨name, target, token, hfits, handle⟩ := a
  cases target with
  | none => simp [text, kind, targetChars]
  | some s =>
    have hs := (h.target s rfl).2
    cases token with
    | some t => simp [text, kind, targetChars, tokenChars, Selector.text]
    | none =>
      by_cases hbare : s.isBare = true
      · -- a list is not bare, so nothing stands after the name of the target
        have hvalue : s.valueText = "" := by
          refine hs.resolve_right (fun hlist => ?_)
          have hblank := List.all_eq_true.1 hbare _ (List.mem_of_getLast? hlist.2.2)
          exact absurd hblank (by decide)
        simp [text, kind, hbare, targetChars, tokenChars, hvalue]
      · simp [text, kind, hbare, targetChars, tokenChars, Selector.text]

/-- Where an alias is not its own target under the joint mode of the two names, it is not when both
names take the mode of the alias. -/
theorem not_isOwnName_inMode {m : Name} {s t : Selector} {token : Option String}
    (h : isOwnName name s token = false) (hm : m = name.inMode name.mode)
    (ht : t.name = s.name.inMode name.mode) (hvalue : t.valueText = s.valueText) :
    isOwnName m t token = false := by
  have hbare : t.isBare = s.isBare := by rw [Selector.isBare, Selector.isBare, hvalue]
  have hsame : t.name.same m = true → s.name.same name = true := by
    rw [ht, hm]
    exact Name.same_of_same_inMode
  unfold isOwnName at h ⊢
  rw [hbare]
  cases hcase : t.name.same m with
  | false => rfl
  | true =>
    rw [hsame hcase] at h
    exact h

theorem exists_make {s : Selector} {token : Option String} (hs : isTarget s = true)
    (htoken : tokenFits token = true) (hown : isOwnName name s token = false) :
    ∃ a, make name (some s) token = .ok a ∧ a.name = name ∧ a.target = some s ∧
      a.token = token := by
  simp only [make, dif_pos hs, dif_pos htoken, hown]
  exact ⟨_, rfl, rfl, rfl, rfl⟩

/-- The parts of an alias with a target, by what makes it fit. -/
theorem fits_some_iff {s : Selector} {token : Option String} :
    fits name (some s) token = true ↔
      isTarget s = true ∧ tokenFits token = true ∧ isOwnName name s token = false := by
  simp [fits, and_assoc]

/-- An alias is written so that reading it gives the same alias again, in its mode. -/
theorem exists_parseEntry {a : Alias} (offset : Nat) (h : a.Rereads settings)
    (hws : Text.allBlank ws = true) :
    ∃ b, parseEntry settings a.name.mode offset (ws ++ a.text.toList) = .ok b ∧
      b.wording = a.wording ∧ b.name.mode = a.name.mode := by
  have hmake : Name.make settings (String.ofList a.name.value.toList) a.name.mode =
      .ok (a.name.inMode a.name.mode) := by
    rw [String.ofList_toList]
    exact Name.make_of_fits h.name
  rw [toList_text h]
  obtain ⟨name, target, token, hfits, handle⟩ := a
  cases target with
  | none =>
    obtain rfl : token = none := Option.isNone_iff_eq_none.1 hfits
    have hname : readName settings name.mode offset (ws ++ (name.value.toList ++ [])) =
        .ok (name.inMode name.mode, []) := readName_of_make hws hmake rfl
    refine ⟨passThrough (name.inMode name.mode), ?_, rfl, rfl⟩
    rw [targetChars, parseEntry, hname]
    rfl
  | some s =>
    obtain ⟨hsfits, hsreads⟩ := h.target s rfl
    obtain ⟨htarget, htoken, hown⟩ := fits_some_iff.1 hfits
    have hname : readName settings name.mode offset
        (ws ++ (name.value.toList ++ targetChars (some s) token)) =
          .ok (name.inMode name.mode, targetChars (some s) token) :=
      readName_of_make hws hmake (by decide : Text.isBlank ' ' = true)
    have hfront : Text.trimLeft (targetChars (some s) token) =
        s.name.value.toList ++ s.valueText.toList ++ tokenChars token := by
      have hhead := not_isBlank_head_of_isName s.name.isName_value
        (s.valueText.toList ++ tokenChars token)
      rw [← List.append_assoc] at hhead
      exact Text.trimLeft_append (a := [' ']) rfl hhead
    have hne : s.name.value.toList ++ s.valueText.toList ++ tokenChars token ≠ [] := by
      simp [ne_nil_of_isName s.name.isName_value]
    obtain ⟨t, hread, htname, htvalue⟩ := readTarget_of_readsAgain name.mode offset
      (ws ++ (name.value.toList ++ targetChars (some s) token))
      (s.name.value.toList ++ s.valueText.toList ++ tokenChars token) hsreads hsfits
    have hbare : t.isBare = s.isBare := by rw [Selector.isBare, Selector.isBare, htvalue]
    have httarget : isTarget t = true := by
      rw [isTarget, hbare, htvalue]
      exact htarget
    obtain ⟨b, hb, hbname, hbtarget, hbtoken⟩ :=
      exists_make httarget htoken (not_isOwnName_inMode hown rfl htname htvalue)
    refine ⟨b, ?_, ?_, by rw [hbname]; rfl⟩
    · rw [parseEntry, hname]
      simp only [bind, Except.bind, hfront, if_neg hne, takeTarget_of_readsAgain hsreads htoken,
        hread, readToken_tokenChars htoken, hb]
    · simp only [wording, kind, hbname, hbtarget, hbtoken, Option.map_some, htname, htvalue, hbare]
      rfl

end FunctionCatalog.Alias
