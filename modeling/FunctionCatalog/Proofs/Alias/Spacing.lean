import FunctionCatalog.Proofs.Alias.Reading

/-
  FunctionCatalog: white space in the entries of an alias text.
  An entry falls into its name and what completes it, and that into a target and what trails it, at
  one place each. So an entry means the same whatever white space stands around it, between its name
  and its target, and in front of its token, as long as there is some where there was some
  (`Respaced.means`).
-/

namespace FunctionCatalog

/-! ## Cuts of a text -/

/-- The last character of a text is none of these. -/
def EndsOutside (p : Char → Bool) (cs : List Char) : Prop :=
  ∃ c, cs.getLast? = some c ∧ p c = false

namespace EndsOutside

variable {p : Char → Bool} {x y a b : List Char}

theorem append (front : List Char) (h : EndsOutside p x) : EndsOutside p (front ++ x) := by
  obtain ⟨c, hlast, hc⟩ := h
  exact ⟨c, by rw [List.getLast?_append, hlast, Option.some_or], hc⟩

theorem of_forall (hne : x ≠ []) (h : ∀ c ∈ x, p c = false) : EndsOutside p x :=
  ⟨x.getLast hne, List.getLast?_eq_some_getLast hne, h _ (List.getLast_mem hne)⟩

/-- With only such characters at the end of a whole, it stands in front of them. -/
theorem exists_append (hx : EndsOutside p x) (hb : ∀ c ∈ b, p c = true) (h : x ++ y = a ++ b) :
    ∃ z, a = x ++ z ∧ y = z ++ b := by
  obtain ⟨c, hlast, hc⟩ := hx
  rcases List.append_eq_append_iff.1 h with ⟨z, hz, hy⟩ | ⟨z, hz, hrest⟩
  · exact ⟨z, hz, hy⟩
  · cases z with
    | nil => exact ⟨[], by simpa using hz.symm, by simpa using hrest.symm⟩
    | cons d z =>
      -- the last character of `x` would be one of those at the end
      have hmem : c ∈ d :: z := by
        rw [hz, List.getLast?_append_cons] at hlast
        exact List.mem_of_getLast? hlast
      rw [hb c (hrest ▸ List.mem_append_left y hmem)] at hc
      cases hc

end EndsOutside

namespace Text

variable {ws ws' rest x : List Char}

theorem trimLeft_blank_append (h : allBlank ws = true) : trimLeft (ws ++ rest) = trimLeft rest :=
  List.dropWhile_append_of_pos (List.all_eq_true.1 h)

theorem head_trimLeft_append_blank (h : allBlank ws = true) :
    (trimLeft (rest ++ ws)).head? = (trimLeft rest).head? := by
  rw [trimLeft, trimLeft, List.dropWhile_append]
  split
  · next hnil =>
    rw [List.isEmpty_iff.1 hnil]
    exact congrArg List.head? (trimLeft_eq_nil_iff.2 h)
  · next hne =>
    rw [List.isEmpty_iff] at hne
    exact List.head?_append_of_ne_nil _ hne

theorem allBlank_append : allBlank (ws ++ ws') = true ↔ allBlank ws = true ∧ allBlank ws' = true := by
  rw [allBlank, List.all_append, Bool.and_eq_true]
  rfl

theorem not_allBlank_of_endsOutside (h : EndsOutside isBlank x) : ¬ allBlank x = true := by
  obtain ⟨c, hlast, hc⟩ := h
  intro hblank
  rw [List.all_eq_true.1 hblank c (List.mem_of_getLast? hlast)] at hc
  cases hc

/-- Of two cuts of a text behind white space the one in front of something else is the later. -/
theorem exists_append_of_blank (hws : allBlank ws = true) (hws' : allBlank ws' = true)
    (hx : ∀ c ∈ x.head?, isBlank c = false) (h : ws ++ rest = ws' ++ x) :
    ∃ w, allBlank w = true ∧ rest = w ++ x := by
  obtain ⟨w, hw, hrest⟩ := exists_trimLeft rest
  refine ⟨w, hw, ?_⟩
  rwa [← trimLeft_blank_append hws, h, trimLeft_append hws' hx] at hrest

end Text

/-! ## Closed texts and plain characters -/

theorem Quoted.endsOutside {q : List Char} (h : Quoted q) : EndsOutside isPlain q := by
  induction h with
  | close => exact ⟨'"', rfl, by decide⟩
  | escaped c _ ih => exact ih.append ['\\', c]
  | @plain c _ _ _ _ ih => exact ih.append [c]

namespace Closed

variable {commas : Bool} {a b : List Char}

/-- Plain characters at the end of a closed text can be left out. -/
theorem of_append_plain (hb : ∀ c ∈ b, isPlain c = true) (h : Closed commas (a ++ b)) :
    Closed commas a := by
  generalize hab : a ++ b = cs at h
  induction h generalizing a with
  | nil =>
    obtain ⟨rfl, -⟩ := List.append_eq_nil_iff.1 hab
    exact .nil _
  | @plain commas c cs hc _ ih =>
    cases a with
    | nil => exact .nil _
    | cons d a =>
      obtain ⟨rfl, hrest⟩ := List.cons.inj hab
      exact .plain hc (ih hrest)
  | @comma cs _ ih =>
    have hlast : EndsOutside isPlain [','] := ⟨',', rfl, by decide⟩
    obtain ⟨z, rfl, rfl⟩ := hlast.exists_append hb hab.symm
    exact .comma (ih rfl)
  | @literal commas q cs hq _ ih =>
    obtain ⟨z, rfl, rfl⟩ := (hq.endsOutside.append ['"']).exists_append (y := cs) hb hab.symm
    exact .literal hq (ih rfl)
  | @list commas x cs hx _ _ ih =>
    have hlast : EndsOutside isPlain ('(' :: x ++ [')']) :=
      EndsOutside.append _ ⟨')', rfl, by decide⟩
    obtain ⟨z, rfl, rfl⟩ := hlast.exists_append (y := cs) hb (by simpa using hab.symm)
    rw [List.append_assoc]
    exact .list hx (ih rfl)

/-- What follows a closed text is closed if the whole is. -/
theorem of_append (ha : Closed false a) (h : Closed false (a ++ b)) : Closed false b := by
  have hwhole : Alias.splitFrom "" 0 0 0 false (a ++ b ++ []) = .ok [(0, a ++ b)] := by
    rw [Alias.splitFrom_append h (by simp)]
    simp [Alias.splitFrom, Except.map, Alias.onto]
  rw [List.append_nil, Alias.splitFrom_append ha (by simp)] at hwhole
  obtain ⟨pieces, hsplit, honto⟩ := exists_of_map_ok hwhole
  obtain ⟨e, es, hpieces, he, -, rfl⟩ := Alias.isCut_of_splitFrom hsplit
  obtain ⟨p, ps, rfl, rfl, rfl⟩ := List.map_eq_cons_iff.1 hpieces
  obtain ⟨-, rfl⟩ := List.cons.inj honto
  cases he with
  | top he => simpa using he

theorem of_allBlank (h : Text.allBlank a = true) : Closed commas a :=
  of_all_isPlain fun c hc => isPlain_of_isBlank (List.all_eq_true.1 h c hc)

theorem of_isName (h : isName a = true) : Closed commas a :=
  of_all_isPlain fun c hc => isPlain_of_isNamePart (isNamePart_of_isName h c hc)

end Closed

namespace Alias

variable {settings : Settings} {mode : CaseMode} {name : Name}
  {ws ws' n chars gap gap' back back' rest rest' tail entry entry' : List Char}
  {token : Option String} {a : Alias}

theorem endsOutside_of_isName (hn : isName n = true) : EndsOutside Text.isBlank n :=
  .of_forall (ne_nil_of_isName hn) fun c hc => not_isBlank_of_isNamePart (isNamePart_of_isName hn c hc)

/-! ## White space that counts -/

/-- White space, and some. -/
structure IsGap (ws : List Char) : Prop where
  ne_nil : ws ≠ []
  blank : Text.allBlank ws = true

theorem IsGap.append (h : IsGap gap) (hws : Text.allBlank ws = true) : IsGap (gap ++ ws) :=
  ⟨List.append_ne_nil_of_left_ne_nil h.ne_nil ws, Text.allBlank_append.2 ⟨h.blank, hws⟩⟩

theorem IsGap.isSetApart (h : IsGap gap) (rest : List Char) :
    Alias.isSetApart (gap ++ rest) = true := by
  obtain ⟨c, gap, rfl⟩ := List.exists_cons_of_ne_nil h.ne_nil
  exact (Bool.and_eq_true_iff.1 h.blank).1

theorem isSetApart_of_allBlank (h : Text.allBlank rest = true) : isSetApart rest = true := by
  cases rest with
  | nil => rfl
  | cons c rest => exact (Bool.and_eq_true_iff.1 h).1

/-- A text is set apart, or not, whatever white space ends it. -/
theorem isSetApart_append_blank (hback' : Text.allBlank back' = true)
    (h : isSetApart (rest ++ back) = true) : isSetApart (rest ++ back') = true := by
  cases rest with
  | nil => exact isSetApart_of_allBlank hback'
  | cons c rest => exact h

/-! ## Targets and what trails them -/

namespace TargetBefore

/-- Of what follows a target only its front counts. -/
theorem congr (h : TargetBefore rest chars)
    (hapart : isSetApart rest = true → isSetApart rest' = true)
    (hhead : (Text.trimLeft rest').head? = (Text.trimLeft rest).head?) :
    TargetBefore rest' chars := by
  cases h with
  | name hn hrest hparens => exact .name hn (hapart hrest) (hhead ▸ hparens)
  | list hn hws hb => exact .list hn hws hb

theorem regap (hgap : IsGap gap) (hgap' : IsGap gap') (h : TargetBefore (gap ++ rest) chars) :
    TargetBefore (gap' ++ rest) chars :=
  h.congr (fun _ => hgap'.isSetApart rest)
    (by rw [Text.trimLeft_blank_append hgap.blank, Text.trimLeft_blank_append hgap'.blank])

theorem reend (hback : Text.allBlank back = true) (hback' : Text.allBlank back' = true)
    (h : TargetBefore (rest ++ back) chars) : TargetBefore (rest ++ back') chars :=
  h.congr (isSetApart_append_blank hback')
    (by rw [Text.head_trimLeft_append_blank hback, Text.head_trimLeft_append_blank hback'])

theorem closed (h : TargetBefore rest chars) : Closed false chars := by
  cases h with
  | name hn => exact .of_isName hn
  | list hn hws hb =>
    exact (Closed.of_isName hn).append ((Closed.of_allBlank hws).append (.list hb (.nil false)))

/-- A target begins with a name. -/
theorem not_isBlank_head (h : TargetBefore rest chars) (tail : List Char) :
    ∀ c ∈ (chars ++ tail).head?, Text.isBlank c = false := by
  obtain ⟨n, v, hn, rfl⟩ := h.exists_name
  rw [List.append_assoc]
  exact not_isBlank_head_of_isName hn (v ++ tail)

/-- A target ends with a character of its name or with a parenthesis. -/
theorem endsOutside (h : TargetBefore rest chars) : EndsOutside Text.isBlank chars := by
  cases h with
  | name hn => exact endsOutside_of_isName hn
  | @list n ws b =>
    have hlast : EndsOutside Text.isBlank [')'] := ⟨')', rfl, by decide⟩
    exact (((hlast.append b).append ['(']).append ws).append n

/-- A target is cut off at one place. -/
theorem unique {chars' : List Char} (h : TargetBefore rest chars) (h' : TargetBefore rest' chars')
    (heq : chars ++ rest = chars' ++ rest') : chars = chars' ∧ rest = rest' := by
  have htake : takeTarget 0 [] (chars ++ rest) = .ok (chars, rest) := takeTarget_of_before h
  rw [heq, takeTarget_of_before h'] at htake
  obtain ⟨hchars, hrest⟩ := Prod.mk.inj (Except.ok.inj htake)
  exact ⟨hchars.symm, hrest.symm⟩

end TargetBefore

namespace Trails

theorem not_isBlank_head_token {t : String} (ht : t ≠ "")
    (hall : ∀ c ∈ t.toList, Text.isBlank c = false) (ws : List Char) :
    ∀ c ∈ (t.toList ++ ws).head?, Text.isBlank c = false := by
  obtain ⟨d, ds, hcons⟩ := List.exists_cons_of_ne_nil (l := t.toList) (by simpa using ht)
  rw [hcons]
  intro c hc
  cases hc
  exact hall d (by simp [hcons])

theorem regap (hgap : IsGap gap) (hgap' : IsGap gap') (h : Trails token (gap ++ rest)) :
    Trails token (gap' ++ rest) := by
  generalize hall : gap ++ rest = cs at h
  cases h with
  | nothing h =>
    rw [← hall, Text.allBlank_append] at h
    exact .nothing (Text.allBlank_append.2 ⟨hgap'.blank, h.2⟩)
  | token hgap₀ hblank₀ ht htoken hws =>
    obtain ⟨w, hw, rfl⟩ := Text.exists_append_of_blank hgap.blank hblank₀
      (not_isBlank_head_token ht htoken _) hall
    have hboth := hgap'.append hw
    rw [← List.append_assoc]
    exact .token hboth.ne_nil hboth.blank ht htoken hws

theorem reend (hback : Text.allBlank back = true) (hback' : Text.allBlank back' = true)
    (h : Trails token (rest ++ back)) : Trails token (rest ++ back') := by
  generalize hall : rest ++ back = cs at h
  cases h with
  | nothing h =>
    rw [← hall, Text.allBlank_append] at h
    exact .nothing (Text.allBlank_append.2 ⟨h.1, hback'⟩)
  | @token gap ws t hgap hblank ht htoken hws =>
    have hlast : EndsOutside Text.isBlank (gap ++ t.toList) :=
      (EndsOutside.of_forall (by simpa using ht) htoken).append gap
    rw [← List.append_assoc] at hall
    obtain ⟨z, rfl, rfl⟩ := hlast.exists_append (List.all_eq_true.1 hback) hall.symm
    rw [List.append_assoc, List.append_assoc]
    exact .token hgap hblank ht htoken
      (Text.allBlank_append.2 ⟨(Text.allBlank_append.1 hws).1, hback'⟩)

end Trails

/-! ## What completes a name -/

/-- What stands behind the name of an entry, and what the two mean. -/
inductive Completes (settings : Settings) (mode : CaseMode) (name : Name) :
    List Char → Alias → Prop
  | nothing {ws : List Char} (h : Text.allBlank ws = true) :
      Completes settings mode name ws (passThrough name)
  | target {gap chars rest : List Char} {s : Selector} {token : Option String} {a : Alias}
      (hgap : IsGap gap) (hchars : TargetBefore rest chars)
      (hs : Selector.parse settings mode (String.ofList chars) = .ok s) (hrest : Trails token rest)
      (ha : make name (some s) token = .ok a) :
      Completes settings mode name (gap ++ (chars ++ rest)) a

namespace Completes

theorem isSetApart (h : Completes settings mode name tail a) : isSetApart tail = true := by
  cases h with
  | nothing h => exact isSetApart_of_allBlank h
  | target hgap => exact hgap.isSetApart _

theorem regap (hgap : IsGap gap) (hgap' : IsGap gap')
    (h : Completes settings mode name (gap ++ rest) a) :
    Completes settings mode name (gap' ++ rest) a := by
  generalize hall : gap ++ rest = cs at h
  cases h with
  | nothing h =>
    rw [← hall, Text.allBlank_append] at h
    exact .nothing (Text.allBlank_append.2 ⟨hgap'.blank, h.2⟩)
  | target hgap₀ hchars hs hrest ha =>
    obtain ⟨w, hw, rfl⟩ := Text.exists_append_of_blank hgap.blank hgap₀.blank
      (hchars.not_isBlank_head _) hall
    rw [← List.append_assoc]
    exact .target (hgap'.append hw) hchars hs hrest ha

theorem reend (hback : Text.allBlank back = true) (hback' : Text.allBlank back' = true)
    (h : Completes settings mode name (tail ++ back) a) :
    Completes settings mode name (tail ++ back') a := by
  generalize hall : tail ++ back = cs at h
  cases h with
  | nothing h =>
    rw [← hall, Text.allBlank_append] at h
    exact .nothing (Text.allBlank_append.2 ⟨h.1, hback'⟩)
  | @target gap chars rest _ _ _ hgap hchars hs hrest ha =>
    rw [← List.append_assoc] at hall
    obtain ⟨z, rfl, rfl⟩ :=
      (hchars.endsOutside.append gap).exists_append (List.all_eq_true.1 hback) hall.symm
    rw [List.append_assoc, List.append_assoc]
    exact .target hgap (hchars.reend hback hback') hs (hrest.reend hback hback') ha

/-- The same in front of what trails the target. -/
theorem regap_trail {g : List Char} (hg : IsGap g) (hgap : IsGap gap) (hgap' : IsGap gap')
    (hchars : TargetBefore (gap ++ rest) chars)
    (h : Completes settings mode name (g ++ (chars ++ (gap ++ rest))) a) :
    Completes settings mode name (g ++ (chars ++ (gap' ++ rest))) a := by
  generalize hall : g ++ (chars ++ (gap ++ rest)) = cs at h
  cases h with
  | nothing h =>
    rw [← hall, Text.allBlank_append, Text.allBlank_append] at h
    exact absurd h.2.1 (Text.not_allBlank_of_endsOutside hchars.endsOutside)
  | target hg₀ hchars₀ hs hrest ha =>
    have hcut := congrArg Text.trimLeft hall
    rw [Text.trimLeft_append hg.blank (hchars.not_isBlank_head _),
      Text.trimLeft_append hg₀.blank (hchars₀.not_isBlank_head _)] at hcut
    obtain ⟨rfl, rfl⟩ := hchars.unique hchars₀ hcut
    exact .target hg (hchars.regap hgap hgap') hs (hrest.regap hgap hgap') ha

end Completes

/-! ## Whole entries -/

/-- An entry is its name and what completes it, behind white space. -/
theorem means_iff : Means settings mode entry a ↔ ∃ ws n tail name, entry = ws ++ (n ++ tail) ∧
    Text.allBlank ws = true ∧ Name.make settings (String.ofList n) mode = .ok name ∧
      Completes settings mode name tail a := by
  constructor
  · rintro (h | ⟨h, hs, hrest, ha⟩)
    · obtain ⟨hws, hmake, hgap⟩ := h
      exact ⟨_, _, _, _, rfl, hws, hmake, .nothing hgap⟩
    · obtain ⟨hws, hmake, hgap, hblank, hchars⟩ := h
      exact ⟨_, _, _, _, rfl, hws, hmake, .target ⟨hgap, hblank⟩ hchars hs hrest ha⟩
  · rintro ⟨ws, n, tail, name, rfl, hws, hmake, ⟨h⟩ | ⟨hgap, hchars, hs, hrest, ha⟩⟩
    · exact .passThrough (.intro hws hmake h)
    · exact .target (.intro hws hmake hgap.ne_nil hgap.blank hchars) hs hrest ha

/-- The name of an entry is cut off at one place. -/
theorem means_append_iff (hws : Text.allBlank ws = true) (hn : isName n = true)
    (htail : isSetApart tail = true) : Means settings mode (ws ++ (n ++ tail)) a ↔
      ∃ name, Name.make settings (String.ofList n) mode = .ok name ∧
        Completes settings mode name tail a := by
  refine means_iff.trans ⟨?_, fun ⟨name, hmake, h⟩ => ⟨ws, n, tail, name, rfl, hws, hmake, h⟩⟩
  rintro ⟨ws₀, n₀, tail₀, name, hall, hws₀, hmake, h⟩
  have hn₀ := Name.isName_of_make hmake
  have hcut := congrArg Text.trimLeft hall
  rw [Text.trimLeft_append hws (not_isBlank_head_of_isName hn tail),
    Text.trimLeft_append hws₀ (not_isBlank_head_of_isName hn₀ tail₀)] at hcut
  have htake := takeName_of_isName hn (not_isNamePart_of_isSetApart htail)
  rw [hcut, takeName_of_isName hn₀ (not_isNamePart_of_isSetApart h.isSetApart)] at htake
  obtain ⟨rfl, rfl⟩ := Prod.mk.inj htake
  exact ⟨name, hmake, h⟩

namespace Means

theorem restart (hws : Text.allBlank ws = true) (hws' : Text.allBlank ws' = true)
    (h : Means settings mode (ws ++ rest) a) : Means settings mode (ws' ++ rest) a := by
  obtain ⟨ws₀, n, tail, name, hall, hws₀, hmake, htail⟩ := means_iff.1 h
  obtain ⟨w, hw, rfl⟩ := Text.exists_append_of_blank hws hws₀
    (not_isBlank_head_of_isName (Name.isName_of_make hmake) tail) hall
  rw [← List.append_assoc]
  exact means_iff.2 ⟨ws' ++ w, n, tail, name, rfl, Text.allBlank_append.2 ⟨hws', hw⟩, hmake, htail⟩

theorem reend (hback : Text.allBlank back = true) (hback' : Text.allBlank back' = true)
    (h : Means settings mode (rest ++ back) a) : Means settings mode (rest ++ back') a := by
  obtain ⟨ws, n, tail, name, hall, hws, hmake, htail⟩ := means_iff.1 h
  have hlast := (endsOutside_of_isName (Name.isName_of_make hmake)).append ws
  rw [← List.append_assoc] at hall
  obtain ⟨z, rfl, rfl⟩ := hlast.exists_append (List.all_eq_true.1 hback) hall.symm
  rw [List.append_assoc, List.append_assoc]
  exact means_iff.2 ⟨ws, n, _, name, rfl, hws, hmake, htail.reend hback hback'⟩

end Means

/-- An entry with other white space around it, between its name and its target, or in front of what
stands behind its target. White space between two of its parts must be there before and after. -/
inductive Respaced : List Char → List Char → Prop
  | around {ws ws' back back' : List Char} (entry : List Char) (hws : Text.allBlank ws = true)
      (hws' : Text.allBlank ws' = true) (hback : Text.allBlank back = true)
      (hback' : Text.allBlank back' = true) :
      Respaced (ws ++ (entry ++ back)) (ws' ++ (entry ++ back'))
  | target {ws n gap gap' : List Char} (rest : List Char) (hws : Text.allBlank ws = true)
      (hn : isName n = true) (hgap : IsGap gap) (hgap' : IsGap gap') :
      Respaced (ws ++ (n ++ (gap ++ rest))) (ws ++ (n ++ (gap' ++ rest)))
  | trail {ws n g chars gap gap' rest : List Char} (hws : Text.allBlank ws = true)
      (hn : isName n = true) (hg : IsGap g) (hchars : TargetBefore (gap ++ rest) chars)
      (hgap : IsGap gap) (hgap' : IsGap gap') :
      Respaced (ws ++ (n ++ (g ++ (chars ++ (gap ++ rest)))))
        (ws ++ (n ++ (g ++ (chars ++ (gap' ++ rest)))))

namespace Respaced

/-- An entry means the same with other white space. -/
theorem means (h : Respaced entry entry') (hs : Means settings mode entry a) :
    Means settings mode entry' a := by
  cases h with
  | around entry hws hws' hback hback' =>
    have hfront := hs.restart hws hws'
    rw [← List.append_assoc] at hfront ⊢
    exact hfront.reend hback hback'
  | target rest hws hn hgap hgap' =>
    obtain ⟨name, hmake, h⟩ := (means_append_iff hws hn (hgap.isSetApart rest)).1 hs
    exact (means_append_iff hws hn (hgap'.isSetApart rest)).2 ⟨name, hmake, h.regap hgap hgap'⟩
  | trail hws hn hg hchars hgap hgap' =>
    obtain ⟨name, hmake, h⟩ := (means_append_iff hws hn (hg.isSetApart _)).1 hs
    exact (means_append_iff hws hn (hg.isSetApart _)).2
      ⟨name, hmake, h.regap_trail hg hgap hgap' hchars⟩

/-- What stands behind the name of a closed entry is closed. -/
theorem closed_behind_name (hws : Text.allBlank ws = true) (hn : isName n = true)
    (hclosed : Closed false (ws ++ (n ++ tail))) : Closed false tail :=
  Closed.of_append (.of_isName hn) (Closed.of_append (.of_allBlank hws) hclosed)

theorem closed (h : Respaced entry entry') (hclosed : Closed false entry) :
    Closed false entry' := by
  have hplain : ∀ {cs : List Char}, Text.allBlank cs = true → ∀ c ∈ cs, isPlain c = true :=
    fun hcs c hc => isPlain_of_isBlank (List.all_eq_true.1 hcs c hc)
  cases h with
  | around entry hws hws' hback hback' =>
    have hrest := Closed.of_append (.of_allBlank hws) hclosed
    exact (Closed.of_allBlank hws').append
      ((hrest.of_append_plain (hplain hback)).append (.of_allBlank hback'))
  | target rest hws hn hgap hgap' =>
    have hrest := Closed.of_append (.of_allBlank hgap.blank) (closed_behind_name hws hn hclosed)
    exact (Closed.of_allBlank hws).append
      ((Closed.of_isName hn).append ((Closed.of_allBlank hgap'.blank).append hrest))
  | trail hws hn hg hchars hgap hgap' =>
    have hbehind := Closed.of_append (.of_allBlank hg.blank) (closed_behind_name hws hn hclosed)
    have hrest := Closed.of_append (.of_allBlank hgap.blank)
      (Closed.of_append hchars.closed hbehind)
    exact (Closed.of_allBlank hws).append ((Closed.of_isName hn).append
      ((Closed.of_allBlank hg.blank).append
        (hchars.closed.append ((Closed.of_allBlank hgap'.blank).append hrest))))

/-- White space stays white space. -/
theorem allBlank (h : Respaced entry entry') (hblank : Text.allBlank entry = true) :
    Text.allBlank entry' = true := by
  cases h with
  | around entry _ hws' _ hback' =>
    rw [Text.allBlank_append, Text.allBlank_append] at hblank
    exact Text.allBlank_append.2 ⟨hws', Text.allBlank_append.2 ⟨hblank.2.1, hback'⟩⟩
  | target rest _ hn | trail _ hn =>
    rw [Text.allBlank_append, Text.allBlank_append] at hblank
    exact absurd hblank.2.1 (Text.not_allBlank_of_endsOutside (endsOutside_of_isName hn))

end Respaced

end Alias

end FunctionCatalog
