import FunctionCatalog.Proofs.Alias.Entry
import FunctionCatalog.Proofs.Selector.Refusal

/-
  FunctionCatalog: what becomes of one entry of an alias text.
  An entry declares a name and may go on with a target and a token (`OnlyNames`, `Aims`, `Trails`).
  From these parts it can be told whether the entry is read, is refused for a number of too many
  digits or for a reserved character in its token, or is malformed (`parseEntry_outcome`).
-/

namespace FunctionCatalog

open Selector (ReachesUnreadable)

namespace Alias

variable {settings : Settings} {mode : CaseMode} {offset : Nat} {name : Name}
  {entry target chars rest : List Char} {token : Option String} {r : Rejection}

/-! ## The parts of an entry -/

/-- What stands behind a target: white space and perhaps a token. -/
inductive Trails : Option String → List Char → Prop
  | nothing {ws : List Char} (h : Text.allBlank ws = true) : Trails none ws
  | token {gap ws : List Char} {t : String} (hgap : gap ≠ []) (hblank : Text.allBlank gap = true)
      (ht : t ≠ "") (hall : ∀ c ∈ t.toList, Text.isBlank c = false)
      (hws : Text.allBlank ws = true) : Trails (some t) (gap ++ (t.toList ++ ws))

/-- The characters of a target, by what follows them: a name that is set apart and has no list
behind it, or a name and its list. -/
inductive TargetBefore (rest : List Char) : List Char → Prop
  | name {n : List Char} (hn : isName n = true) (hrest : isSetApart rest = true)
      (hparens : (Text.trimLeft rest).head? ≠ some '(') : TargetBefore rest n
  | list {n ws b : List Char} (hn : isName n = true) (hws : Text.allBlank ws = true)
      (hb : Closed true b) : TargetBefore rest (n ++ (ws ++ '(' :: (b ++ [')'])))

/-- An entry that declares a name and, set apart from it, comes to a target. -/
inductive Aims (settings : Settings) (mode : CaseMode) (name : Name) (chars rest : List Char) :
    List Char → Prop
  | intro {ws n gap : List Char} (hws : Text.allBlank ws = true)
      (hmake : Name.make settings (String.ofList n) mode = .ok name) (hgap : gap ≠ [])
      (hblank : Text.allBlank gap = true) (hchars : TargetBefore rest chars) :
      Aims settings mode name chars rest (ws ++ (n ++ (gap ++ (chars ++ rest))))

/-- The name of an entry is read from its front, or the entry is malformed. -/
theorem readName_cases (settings : Settings) (mode : CaseMode) (offset : Nat) (entry : List Char) :
    (∃ e, readName settings mode offset entry = .error (.parse e)) ∨
      ∃ ws n rest name, entry = ws ++ (n ++ rest) ∧ Text.allBlank ws = true ∧
        Name.make settings (String.ofList n) mode = .ok name ∧ isSetApart rest = true ∧
          readName settings mode offset entry = .ok (name, rest) := by
  obtain ⟨ws, hws, hentry⟩ := Text.exists_trimLeft entry
  have hsplit := takeName_append (Text.trimLeft entry)
  unfold readName
  dsimp only
  split
  · exact .inl ⟨_, rfl⟩
  · split
    · exact .inl ⟨_, rfl⟩
    · split
      · next hrest =>
        split
        · next name hmake =>
          refine .inr ⟨ws, _, _, name, ?_, hws, hmake, hrest, rfl⟩
          rw [hsplit, ← hentry]
        · exact .inl ⟨_, rfl⟩
      · exact .inl ⟨_, rfl⟩

theorem takeTarget_of_before (h : TargetBefore rest chars) :
    takeTarget offset entry (chars ++ rest) = .ok (chars, rest) := by
  cases h with
  | name hn hrest hparens => exact takeTarget_name hn hrest hparens
  | list hn hws hb => exact takeTarget_list hn hws hb

/-- In a closed text a list that is opened is closed again, so a target is taken or there is a
wrong character. -/
theorem takeTarget_cases (offset : Nat) (entry : List Char) (hclosed : Closed false target) :
    (∃ e, takeTarget offset entry target = .error (.parse e)) ∨
      ∃ chars rest, target = chars ++ rest ∧ TargetBefore rest chars := by
  have hsplit := takeName_append target
  obtain ⟨ws, hws, hrest⟩ := Text.exists_trimLeft (takeName target).2
  unfold takeTarget
  dsimp only
  split
  · exact .inl ⟨_, rfl⟩
  · next hne =>
    have hn := isName_takeName hne
    split
    · next hopen =>
      obtain ⟨parens, hparens⟩ : ∃ parens, Text.trimLeft (takeName target).2 = '(' :: parens :=
        List.head?_eq_some_iff.1 hopen
      have hlist : Closed false ('(' :: parens) := by
        have hplain : ∀ c ∈ (takeName target).1 ++ ws, isPlain c = true := by
          intro c hc
          rcases List.mem_append.1 hc with hc | hc
          · exact isPlain_of_isNamePart (isNamePart_of_isName hn c hc)
          · exact isPlain_of_isBlank (List.all_eq_true.1 hws c hc)
        apply Closed.of_append_of_all_isPlain hplain
        rwa [List.append_assoc, ← hparens, ← hrest, hsplit]
      obtain ⟨b, after, rfl, hb⟩ := hlist.exists_of_open
      have htarget : target = (takeName target).1 ++ (ws ++ '(' :: (b ++ ')' :: after)) := by
        rw [← hparens, ← hrest, hsplit]
      refine .inr ⟨_, after, htarget.trans ?_, .list hn hws hb⟩
      simp
    · next hparens =>
      split
      · next hapart => exact .inr ⟨_, _, hsplit.symm, .name hn hapart hparens⟩
      · exact .inl ⟨_, rfl⟩

/-- A token is read where one stands. -/
theorem readToken_eq_ok_iff :
    readToken offset entry rest = .ok token ↔ Trails token rest := by
  constructor
  · intro h
    obtain ⟨gap, hblank, hrest⟩ := Text.exists_trimLeft rest
    have hhead := Text.not_isBlank_head_trimLeft rest
    unfold readToken at h
    dsimp only at h
    generalize Text.trimLeft rest = tail at h hrest hhead
    subst hrest
    split at h
    · next hnil =>
      cases h
      rw [hnil, List.append_nil]
      exact .nothing hblank
    · next hne =>
      split at h
      · cases h
      · next hlength =>
        split at h
        · next htrailing =>
          cases h
          have hws := Text.trimLeft_eq_nil_iff.1 htrailing
          have hgap : gap ≠ [] := by
            rintro rfl
            exact hlength rfl
          have hall : ∀ c ∈ tail.takeWhile (fun c => !Text.isBlank c), Text.isBlank c = false :=
            fun c hc => by simpa using List.all_eq_true.1 List.all_takeWhile c hc
          obtain ⟨c, tail, rfl⟩ := List.exists_cons_of_ne_nil hne
          have hc : Text.isBlank c = false := hhead c rfl
          have hfront := Trails.token
            (t := String.ofList ((c :: tail).takeWhile (fun c => !Text.isBlank c)))
            hgap hblank (by simp [hc]) (by simpa using hall) hws
          rwa [String.toList_ofList, List.takeWhile_append_dropWhile] at hfront
        · cases h
  · rintro (⟨h⟩ | ⟨hgap, hblank, ht, hall, hws⟩)
    · rw [readToken]
      simp only [Text.trimLeft_eq_nil_iff.2 h, if_pos]
    · rw [readToken_append hgap hblank (by simpa using ht) hall hws, String.ofList_toList]

theorem exists_of_readToken_error (h : readToken offset entry rest = .error r) :
    ∃ e, r = .parse e := by
  unfold readToken at h
  dsimp only at h
  split at h
  · cases h
  · split at h
    · cases h
      exact ⟨_, rfl⟩
    · split at h
      · cases h
      · cases h
        exact ⟨_, rfl⟩

theorem parse_of_readTarget {s : Selector}
    (h : readTarget settings mode offset entry target chars = .ok s) :
    Selector.parse settings mode (String.ofList chars) = .ok s := by
  unfold readTarget at h
  split at h
  · next hparse => cases h; exact hparse
  · cases h
  · cases h
  · cases h

/-- A target is read as the selector that its characters are. -/
theorem readTarget_of_ok {s : Selector}
    (h : Selector.parse settings mode (String.ofList chars) = .ok s) :
    readTarget settings mode offset entry target chars = .ok s := by
  rw [readTarget, h]

/-- Where the characters of a target are refused as a selector, the entry is malformed. Only a
number of too many digits is not put down to the entry. -/
theorem of_readTarget_error (h : readTarget settings mode offset entry target chars = .error r) :
    (∃ e, r = .parse e) ∨
      (r = .digitLimit ∧
        Selector.parse settings mode (String.ofList chars) = .error .digitLimit) := by
  unfold readTarget at h
  split at h
  · cases h
  · cases h
    exact .inl ⟨_, rfl⟩
  · cases h
    exact .inl ⟨_, rfl⟩
  · next cause hselector hname hparse =>
    cases h
    rcases Selector.of_parse_error hparse with ⟨rfl, -⟩ | ⟨e, rfl⟩ | ⟨e, rfl⟩
    · exact .inr ⟨rfl, hparse⟩
    · exact absurd rfl (hname e)
    · exact absurd rfl (hselector e)

theorem isTarget_of_readsAgain {s : Selector} (h : ReadsAgain settings s) : isTarget s = true := by
  rcases h with hvalue | ⟨hlist, -⟩
  · have hbare : s.isBare = true := by rw [Selector.isBare, hvalue]; rfl
    rw [isTarget, hbare, Bool.true_or]
  · rw [isTarget, hlist, Bool.or_true]

/-- The selector that a target is read as has nothing, or one list, behind its name. -/
theorem readsAgain_of_parse {s : Selector} (h : TargetBefore rest chars)
    (hs : Selector.parse settings mode (String.ofList chars) = .ok s) : ReadsAgain settings s := by
  obtain ⟨-, hvalue, hps⟩ := Selector.parse_eq_ok hs
  rw [String.toList_ofList] at hvalue
  cases h with
  | name hn hrest =>
    have htake : takeName (chars ++ []) = (chars, []) := takeName_of_isName hn (by simp)
    rw [List.append_nil] at htake
    rw [htake] at hvalue
    exact .inl (String.toList_eq_nil_iff.1 hvalue)
  | @list n ws b hn hws =>
    have hleft : Text.trimLeft (ws ++ '(' :: (b ++ [')'])) = '(' :: (b ++ [')']) :=
      Text.trimLeft_append hws (by intro c hc; cases hc; decide)
    have hlist : Selector.isListText (ws ++ '(' :: (b ++ [')'])) = true := by
      rw [Selector.isListText, hleft]
      rfl
    have hsep := Selector.isSeparated_of_isListText hlist
    rw [takeName_of_isName hn (Selector.not_isNamePart_of_isSeparated hsep)] at hvalue
    have hend : (ws ++ '(' :: (b ++ [')'])).getLast? = some ')' := by
      rw [← List.cons_append, ← List.append_assoc, List.getLast?_append]
      rfl
    exact .inr ⟨by rwa [hvalue], hps, by rwa [hvalue]⟩

theorem isTarget_of_parse {s : Selector} (h : TargetBefore rest chars)
    (hs : Selector.parse settings mode (String.ofList chars) = .ok s) : isTarget s = true :=
  isTarget_of_readsAgain (readsAgain_of_parse h hs)

/-- With a target an alias is made, unless its token holds a reserved character. -/
theorem make_of_isTarget {s : Selector} (hs : isTarget s = true) (name : Name)
    (token : Option String) :
    if tokenFits token = true then ∃ a, make name (some s) token = .ok a ∧ a.name = name
    else make name (some s) token = .error (.token (token.getD "")) := by
  split
  · next htoken =>
    cases hmake : make name (some s) token with
    | ok a => exact ⟨a, rfl, name_of_make hmake⟩
    | error r =>
      simp only [make, dif_pos hs, dif_pos htoken] at hmake
      split at hmake <;> cases hmake
  · next htoken => simp only [make, dif_pos hs, dif_neg htoken]

/-! ## A whole entry -/

/-- Every target begins with a name. -/
theorem TargetBefore.exists_name (h : TargetBefore rest chars) :
    ∃ n v, isName n = true ∧ chars = n ++ v := by
  cases h with
  | name hn => exact ⟨chars, [], hn, (List.append_nil chars).symm⟩
  | list hn => exact ⟨_, _, hn, rfl⟩

/-- Behind the name of an entry its target is read, then its token. -/
theorem parseEntry_of_aims (offset : Nat) (h : Aims settings mode name chars rest entry) :
    ∃ target, parseEntry settings mode offset entry =
      (readTarget settings mode offset entry target chars >>= fun selector =>
        readToken offset entry rest >>= fun token => make name (some selector) token) := by
  obtain ⟨hws, hmake, hgap, hblank, hchars⟩ := h
  rename_i ws n gap
  have hapart : isSetApart (gap ++ (chars ++ rest)) = true := by
    obtain ⟨c, gap, rfl⟩ := List.exists_cons_of_ne_nil hgap
    exact (Bool.and_eq_true_iff.1 hblank).1
  have hname : readName settings mode offset (ws ++ (n ++ (gap ++ (chars ++ rest)))) =
      .ok (name, gap ++ (chars ++ rest)) := readName_of_make hws hmake hapart
  obtain ⟨m, v, hm, hsplit⟩ := hchars.exists_name
  have htrim : Text.trimLeft (gap ++ (chars ++ rest)) = chars ++ rest := by
    apply Text.trimLeft_append hblank
    rw [hsplit, List.append_assoc]
    exact not_isBlank_head_of_isName hm (v ++ rest)
  have hne : chars ++ rest ≠ [] := by simp [hsplit, ne_nil_of_isName hm]
  refine ⟨chars ++ rest, ?_⟩
  rw [parseEntry, hname]
  simp only [bind, Except.bind, htrim, if_neg hne, takeTarget_of_before hchars]

/-- An entry with nothing but a name. -/
inductive OnlyNames (settings : Settings) (mode : CaseMode) (name : Name) : List Char → Prop
  | intro {ws n gap : List Char} (hws : Text.allBlank ws = true)
      (hmake : Name.make settings (String.ofList n) mode = .ok name)
      (hgap : Text.allBlank gap = true) : OnlyNames settings mode name (ws ++ (n ++ gap))

theorem parseEntry_of_onlyNames (offset : Nat) (h : OnlyNames settings mode name entry) :
    parseEntry settings mode offset entry = .ok (passThrough name) := by
  obtain ⟨hws, hmake, hgap⟩ := h
  rename_i ws n gap
  have hapart : isSetApart gap = true := by
    cases gap with
    | nil => rfl
    | cons c gap => exact (Bool.and_eq_true_iff.1 hgap).1
  have hname : readName settings mode offset (ws ++ (n ++ gap)) = .ok (name, gap) :=
    readName_of_make hws hmake hapart
  rw [parseEntry, hname]
  simp only [bind, Except.bind, Text.trimLeft_eq_nil_iff.2 hgap, if_pos]
  rfl

theorem exists_parseEntry_of_allBlank (settings : Settings) (mode : CaseMode) (offset : Nat)
    (h : Text.allBlank entry = true) :
    ∃ e, parseEntry settings mode offset entry = .error (.parse e) := by
  have hname : readName settings mode offset entry = refuse offset entry .emptyEntry [] := by
    simp only [readName, Text.trimLeft_eq_nil_iff.2 h, if_pos]
  rw [parseEntry, hname]
  exact ⟨_, rfl⟩

/-- A closed entry is malformed up to its target, or it is a name alone or with a target. -/
theorem parseEntry_cases (settings : Settings) (mode : CaseMode) (offset : Nat)
    (hclosed : Closed false entry) :
    (∃ e, parseEntry settings mode offset entry = .error (.parse e)) ∨
      (∃ name, OnlyNames settings mode name entry) ∨
        ∃ name chars rest, Aims settings mode name chars rest entry := by
  rcases readName_cases settings mode offset entry with
    ⟨e, hfails⟩ | ⟨ws, n, tail, name, rfl, hws, hmake, hapart, hname⟩
  · refine .inl ⟨e, ?_⟩
    rw [parseEntry, hfails]
    rfl
  · have hn := Name.isName_of_make hmake
    obtain ⟨gap, hgap, htail⟩ := Text.exists_trimLeft tail
    by_cases hnil : Text.trimLeft tail = []
    · exact .inr (.inl ⟨name, .intro hws hmake (Text.trimLeft_eq_nil_iff.1 hnil)⟩)
    · have hplain : ∀ c ∈ ws ++ (n ++ gap), isPlain c = true := by
        intro c hc
        simp only [List.mem_append] at hc
        rcases hc with hc | hc | hc
        · exact isPlain_of_isBlank (List.all_eq_true.1 hws c hc)
        · exact isPlain_of_isNamePart (isNamePart_of_isName hn c hc)
        · exact isPlain_of_isBlank (List.all_eq_true.1 hgap c hc)
      have htarget : Closed false (Text.trimLeft tail) := by
        apply Closed.of_append_of_all_isPlain hplain
        rwa [List.append_assoc, List.append_assoc, ← htail]
      rcases takeTarget_cases offset (ws ++ (n ++ tail)) htarget with
        ⟨e, hfails⟩ | ⟨chars, rest, hsplit, hchars⟩
      · refine .inl ⟨e, ?_⟩
        rw [parseEntry, hname]
        simp only [bind, Except.bind, if_neg hnil, hfails]
      · have hne : gap ≠ [] := by
          rintro rfl
          obtain ⟨c, cs, hcons⟩ := List.exists_cons_of_ne_nil hnil
          have hc : Text.isBlank c = false :=
            Text.not_isBlank_head_trimLeft tail c (by simp [hcons])
          rw [htail, List.nil_append, hcons] at hapart
          exact absurd hapart (by simp [isSetApart, hc])
        rw [hsplit] at htail
        rw [htail]
        exact .inr (.inr ⟨name, chars, rest, .intro hws hmake hne hgap hchars⟩)

/-- An entry that can be read, by the name that it declares. -/
inductive Declares (settings : Settings) (mode : CaseMode) (name : Name) (entry : List Char) : Prop
  | passThrough (h : OnlyNames settings mode name entry)
  | target {chars rest : List Char} {s : Selector} {token : Option String}
      (h : Aims settings mode name chars rest entry)
      (hs : Selector.parse settings mode (String.ofList chars) = .ok s)
      (hrest : Trails token rest) (htoken : tokenFits token = true)

/-- An entry that comes, in the list of its target, to a whole number of too many digits. -/
def HasLongNumber (settings : Settings) (mode : CaseMode) (entry : List Char) : Prop :=
  ∃ name n v rest, Aims settings mode name (n ++ v) rest entry ∧ isName n = true ∧
    Selector.isListText v = true ∧ ReachesUnreadable v

/-- An entry whose target can be read and that has, as its token, a text with a reserved
character. -/
def HasBadToken (settings : Settings) (mode : CaseMode) (t : String) (entry : List Char) : Prop :=
  ∃ name chars rest, Aims settings mode name chars rest entry ∧
    (∃ s, Selector.parse settings mode (String.ofList chars) = .ok s) ∧
      Trails (some t) rest ∧ ∃ c ∈ t.toList, c ∈ aliasReserved

theorem Trails.tokenFits_eq_false_iff {t : String} (h : Trails (some t) rest) :
    tokenFits (some t) = false ↔ ∃ c ∈ t.toList, c ∈ aliasReserved := by
  cases h with
  | token _ _ ht hall _ =>
    have hfits : tokenFits (some t) = true ↔ ∀ c ∈ t.toList, c ∉ aliasReserved := by
      simp only [tokenFits, isToken, Bool.and_eq_true, List.all_eq_true]
      constructor
      · intro h c hc
        simpa using (h.2 c hc).2
      · intro h
        exact ⟨by simpa using ht, fun c hc => ⟨by simp [hall c hc], by simpa using h c hc⟩⟩
    rw [← Bool.not_eq_true, hfits]
    simp

/-- A target and what trails it are the whole of an entry: where both can be read so can the entry,
up to the characters of the token. -/
theorem parseEntry_of_trails {s : Selector} (offset : Nat)
    (h : Aims settings mode name chars rest entry)
    (hs : Selector.parse settings mode (String.ofList chars) = .ok s) (hrest : Trails token rest) :
    parseEntry settings mode offset entry = make name (some s) token := by
  obtain ⟨target, hparse⟩ := parseEntry_of_aims offset h
  rw [hparse, readTarget_of_ok hs, readToken_eq_ok_iff.2 hrest]
  rfl

theorem Aims.targetBefore (h : Aims settings mode name chars rest entry) :
    TargetBefore rest chars := by
  cases h
  assumption

/-- A closed entry can be read, has a number of too many digits, has a token with a reserved
character, or is malformed. -/
theorem parseEntry_outcome (settings : Settings) (mode : CaseMode) (offset : Nat)
    (hclosed : Closed false entry) :
    (∃ a, parseEntry settings mode offset entry = .ok a ∧ Declares settings mode a.name entry) ∨
    (parseEntry settings mode offset entry = .error .digitLimit ∧
      HasLongNumber settings mode entry) ∨
    (∃ t, parseEntry settings mode offset entry = .error (.token t) ∧
      HasBadToken settings mode t entry) ∨
    ∃ e, parseEntry settings mode offset entry = .error (.parse e) := by
  rcases parseEntry_cases settings mode offset hclosed with
    hfails | ⟨name, h⟩ | ⟨name, chars, rest, h⟩
  · exact .inr (.inr (.inr hfails))
  · exact .inl ⟨_, parseEntry_of_onlyNames offset h, .passThrough h⟩
  · obtain ⟨target, hparse⟩ := parseEntry_of_aims offset h
    cases hread : readTarget settings mode offset entry target chars with
    | error r =>
      rw [hparse, hread]
      rcases of_readTarget_error hread with ⟨e, rfl⟩ | ⟨rfl, hlimit⟩
      · exact .inr (.inr (.inr ⟨e, rfl⟩))
      · rcases Selector.of_parse_error hlimit with ⟨-, n, v, hchars, hn, hlist, hv⟩ | h | h
        · rw [String.toList_ofList] at hchars
          subst hchars
          exact .inr (.inl ⟨rfl, name, n, v, rest, h, hn, hlist, hv⟩)
        · obtain ⟨cause, heq⟩ := h
          cases heq
        · obtain ⟨cause, heq⟩ := h
          cases heq
    | ok s =>
      have hs := parse_of_readTarget hread
      cases htail : readToken offset entry rest with
      | error r =>
        rw [hparse, hread, htail]
        obtain ⟨e, rfl⟩ := exists_of_readToken_error htail
        exact .inr (.inr (.inr ⟨e, rfl⟩))
      | ok token =>
        have htrails := readToken_eq_ok_iff.1 htail
        have hmake := make_of_isTarget (isTarget_of_parse h.targetBefore hs) name token
        rw [parseEntry_of_trails offset h hs htrails]
        cases htoken : tokenFits token with
        | true =>
          rw [if_pos htoken] at hmake
          obtain ⟨a, ha, hname⟩ := hmake
          exact .inl ⟨a, ha, hname ▸ .target h hs htrails htoken⟩
        | false =>
          rw [if_neg (by simp [htoken])] at hmake
          cases token with
          | none => cases htoken
          | some t =>
            exact .inr (.inr (.inl ⟨t, hmake, name, chars, rest, h, ⟨s, hs⟩, htrails,
              htrails.tokenFits_eq_false_iff.1 htoken⟩))

theorem exists_parseEntry_of_declares (offset : Nat) (h : Declares settings mode name entry) :
    ∃ a, parseEntry settings mode offset entry = .ok a ∧ a.name = name := by
  cases h with
  | passThrough h => exact ⟨_, parseEntry_of_onlyNames offset h, rfl⟩
  | @target chars rest s token h hs hrest htoken =>
    have hmake := make_of_isTarget (isTarget_of_parse h.targetBefore hs) name token
    rw [if_pos htoken] at hmake
    rwa [parseEntry_of_trails offset h hs hrest]

theorem parseEntry_of_hasLongNumber (offset : Nat) (h : HasLongNumber settings mode entry) :
    parseEntry settings mode offset entry = .error .digitLimit := by
  obtain ⟨name, n, v, rest, haims, hn, hlist, hv⟩ := h
  obtain ⟨target, hparse⟩ := parseEntry_of_aims offset haims
  rw [hparse, readTarget, Selector.parse_of_reachesUnreadable hn hlist hv]
  rfl

theorem parseEntry_of_hasBadToken {t : String} (offset : Nat)
    (h : HasBadToken settings mode t entry) :
    parseEntry settings mode offset entry = .error (.token t) := by
  obtain ⟨name, chars, rest, haims, ⟨s, hs⟩, htrails, hreserved⟩ := h
  have hmake := make_of_isTarget (isTarget_of_parse haims.targetBefore hs) name (some t)
  rw [if_neg (by simp [htrails.tokenFits_eq_false_iff.2 hreserved])] at hmake
  rwa [parseEntry_of_trails offset haims hs htrails]

theorem exists_parseEntry_iff (offset : Nat) (hclosed : Closed false entry) :
    (∃ a, parseEntry settings mode offset entry = .ok a ∧ a.name = name) ↔
      Declares settings mode name entry := by
  refine ⟨?_, exists_parseEntry_of_declares offset⟩
  rintro ⟨a, ha, rfl⟩
  rcases parseEntry_outcome settings mode offset hclosed with
    ⟨b, hb, h⟩ | ⟨h, -⟩ | ⟨t, h, -⟩ | ⟨e, h⟩
  · cases ha.symm.trans hb
    exact h
  · cases ha.symm.trans h
  · cases ha.symm.trans h
  · cases ha.symm.trans h

theorem parseEntry_eq_digitLimit_iff (offset : Nat) (hclosed : Closed false entry) :
    parseEntry settings mode offset entry = .error .digitLimit ↔
      HasLongNumber settings mode entry := by
  refine ⟨fun hlimit => ?_, parseEntry_of_hasLongNumber offset⟩
  rcases parseEntry_outcome settings mode offset hclosed with
    ⟨a, h, -⟩ | ⟨-, h⟩ | ⟨t, h, -⟩ | ⟨e, h⟩
  · cases hlimit.symm.trans h
  · exact h
  · cases hlimit.symm.trans h
  · cases hlimit.symm.trans h

theorem parseEntry_eq_token_iff {t : String} (offset : Nat) (hclosed : Closed false entry) :
    parseEntry settings mode offset entry = .error (.token t) ↔
      HasBadToken settings mode t entry := by
  refine ⟨fun htoken => ?_, parseEntry_of_hasBadToken offset⟩
  rcases parseEntry_outcome settings mode offset hclosed with
    ⟨a, h, -⟩ | ⟨h, -⟩ | ⟨u, h, hu⟩ | ⟨e, h⟩
  · cases htoken.symm.trans h
  · cases htoken.symm.trans h
  · cases htoken.symm.trans h
    exact hu
  · cases htoken.symm.trans h

/-! ## What has been read reads again -/

/-- An alias has the target that it is made with, unless that is its own name. -/
theorem target_of_make {s : Option Selector} {a : Alias} (h : make name s token = .ok a) :
    a.target = none ∨ a.target = s := by
  unfold make at h
  split at h
  · split at h
    · cases h
      exact .inl rfl
    · cases h
  · split at h
    · split at h
      · split at h
        · cases h
          exact .inl rfl
        · cases h
          exact .inr rfl
      · cases h
    · cases h

/-- The names of a closed entry that has been read are not too long, its target reads again, and its
name has the mode that it was read in. -/
theorem rereads_of_parseEntry {a : Alias} (hclosed : Closed false entry)
    (h : parseEntry settings mode offset entry = .ok a) :
    a.Rereads settings ∧ a.name.mode = mode := by
  rcases parseEntry_cases settings mode offset hclosed with
    ⟨e, hfails⟩ | ⟨name, hname⟩ | ⟨name, chars, rest, haims⟩
  · cases h.symm.trans hfails
  · cases h.symm.trans (parseEntry_of_onlyNames offset hname)
    obtain ⟨-, hmake, -⟩ := hname
    obtain ⟨-, hmode, hfits⟩ := Name.make_eq_ok hmake
    exact ⟨⟨hfits, fun s hs => by cases hs⟩, hmode⟩
  · obtain ⟨target, hparse⟩ := parseEntry_of_aims offset haims
    obtain ⟨selector, hread, htail⟩ := exists_of_bind_ok (hparse.symm.trans h)
    obtain ⟨token, -, hmade⟩ := exists_of_bind_ok htail
    obtain rfl : a.name = name := name_of_make hmade
    have hbefore := haims.targetBefore
    have hs := parse_of_readTarget hread
    obtain ⟨-, hmake, -⟩ := haims
    obtain ⟨-, hmode, hfits⟩ := Name.make_eq_ok hmake
    refine ⟨⟨hfits, fun s hs' => ?_⟩, hmode⟩
    rcases target_of_make hmade with hnone | hsome
    · rw [hnone] at hs'
      cases hs'
    · obtain rfl : selector = s := Option.some.inj (hsome.symm.trans hs')
      exact ⟨(Name.make_eq_ok (Selector.parse_eq_ok hs).1).2.2, readsAgain_of_parse hbefore hs⟩

end Alias

end FunctionCatalog
