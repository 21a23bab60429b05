import FunctionCatalog.Proofs.Selector.Language

/-
  FunctionCatalog: what becomes of a parameter text.
  The parser answers with values, or refuses the text for one of three causes, and each of the four
  is told by the text alone (`parse_outcome`): the text is in the language; its tokens lead up to a
  whole number of too many digits; it comes to a name that is too long at the place of a value; or
  it is not in the grammar at all, and neither of these two comes first.
-/

namespace FunctionCatalog.Parameter

open Selector (Padded Separates Tokens Lexes ReachesUnreadable)

variable {bounds : Bounds} {settings : Settings} {mode : CaseMode}
variable {vs : List Parameter} {w cs : List Char}

/-- From just past an opening parenthesis or a comma a text comes to the name `w` where a value has
to stand. All before it is well formed and in the bounds. -/
inductive Reaches (bounds : Bounds) (mode : CaseMode) (w : List Char) : List Char → Prop
  | here {a rest : List Char} (ha : Text.allBlank a = true) (h : isName w = true)
      (hrest : ∀ c ∈ rest.head?, isNamePart c = false) : Reaches bounds mode w (a ++ (w ++ rest))
  | inside {n a b : List Char} (h : isName n = true) (hn : bounds.name n) (ha : Padded n a)
      (hb : Reaches bounds mode w b) : Reaches bounds mode w (a ++ '(' :: b)
  | next {v : Parameter} {a b : List Char} (ha : Writes bounds mode [v] a)
      (hb : Reaches bounds mode w b) : Reaches bounds mode w (a ++ ',' :: b)

/-- What is said of a name that is too long. -/
def tooLong (settings : Settings) (w : List Char) : NameError :=
  ⟨String.ofList w, settings.nameLimit, .tooLong w.length settings.nameLimit⟩

/-- The text falls into tokens, and its list comes to the name `w`, which is too long. -/
def ReachesLongName (settings : Settings) (mode : CaseMode) (w cs : List Char) : Prop :=
  (∃ ls, Tokens ls cs []) ∧ settings.nameLimit < w.length ∧
    ∃ a b, cs = a ++ '(' :: b ∧ Text.allBlank a = true ∧ Reaches (.within settings) mode w b

/-! ## How the parser refuses -/

section Refusals

variable {source : Source} {budget : Nat} {e : Rejection}

/-- The values of a list are refused with this cause: for a name that they come to, or as
malformed. -/
def Source.Refuses (source : Source) (cs : List Char) (e : Rejection) : Prop :=
  (∃ w, e = .name (tooLong source.settings w) ∧ source.settings.nameLimit < w.length ∧
      Reaches (.within source.settings) source.mode w cs) ∨
    ∃ fault position, e = .parse (.selector ⟨fault, source.text, some position⟩)

theorem Source.Refuses.imp {ds : List Char} (h : source.Refuses cs e)
    (hreaches : ∀ w, Reaches (.within source.settings) source.mode w cs →
      Reaches (.within source.settings) source.mode w ds) : source.Refuses ds e :=
  Or.imp_left (fun ⟨w, he, hw, hcs⟩ => ⟨w, he, hw, hreaches w hcs⟩) h

def ValueRefused (source : Source) (budget : Nat) : Prop :=
  ∀ ls e, parseValue source budget ls = .error e → ∀ i cs, source.Holds i cs ls →
    source.Refuses cs e

def ListRefused (source : Source) (budget : Nat) : Prop :=
  ∀ start ls e, parseList source budget start ls = .error e → ∀ i cs, source.Holds i cs ls →
    source.Refuses cs e

def ItemsRefused (source : Source) (budget : Nat) : Prop :=
  ∀ start ls e, parseItems source budget start ls = .error e → ∀ i cs, source.Holds i cs ls →
    source.Refuses cs e

theorem Source.refuses_of_fault {fault : SelectorFault} {position : Nat} {α : Type}
    (h : (source.fault fault position : Except Rejection α) = .error e) : source.Refuses cs e := by
  cases h
  exact .inr ⟨_, _, rfl⟩

/-- A name in the lexemes of a text stands in the text, and is refused only for its length. -/
theorem Source.refuses_of_make {s : String} {k i : Nat} {ls : List PlacedLexeme} {n : NameError}
    (h : Name.make source.settings s source.mode = .error n)
    (hcs : source.Holds i cs (⟨.name s, k⟩ :: ls)) : source.Refuses cs (.name n) := by
  obtain ⟨a, front, rest, rfl, ha, htoken, -⟩ :=
    (Selector.lexes_iff.1 hcs.lexes).exists_of_cons
  cases htoken with
  | punctuation hp => rcases Lexeme.of_ofPunctuation? hp with ⟨-, h⟩ | ⟨-, h⟩ | ⟨-, h⟩ <;> cases h
  | name hname hrest =>
    rcases Int.lt_or_le source.settings.nameLimit front.length with hlong | hfits
    · rw [Name.make_ofList_of_long hname hlong] at h
      cases h
      exact .inl ⟨front, rfl, hlong, .here ha hname hrest⟩
    · rw [Name.make_ofList hname hfits] at h
      cases h

theorem valueRefused_succ (hlist : ListRefused source budget) : ValueRefused source (budget + 1) := by
  intro ls e h i cs hcs
  cases ls with
  | nil => exact Source.refuses_of_fault h
  | cons l ls =>
    obtain ⟨lexeme, position⟩ := l
    rw [parseValue] at h
    split at h
    · cases h
    · cases h
    · next s hl =>
      cases hl
      cases hmake : Name.make source.settings s source.mode with
      | error n =>
        rw [hmake] at h
        cases h
        exact Source.refuses_of_make hmake hcs
      | ok name =>
        simp only [hmake, Rejection.ofName_ok, bind, Except.bind] at h
        split at h
        · next start inner =>
          split at h
          · next e' hparse =>
            cases h
            -- the list of the name stands behind its parenthesis
            have hopen : source.Holds i cs ([⟨.name s, position⟩] ++ ⟨.openParen, start⟩ :: inner) :=
              hcs
            obtain ⟨a, b, rfl, -, ha, hb⟩ := hopen.exists_sides (p := '(') rfl
            obtain ⟨n, rfl, hn, hpadded⟩ := Selector.lexes_name_iff.1 ha.lexes
            obtain ⟨-, hlimit, -⟩ := Name.exists_of_make_ofList hmake
            exact (hlist _ _ _ hparse _ _ hb).imp fun w hw => .inside hn hlimit hpadded hw
          · cases h
        · cases h
    · exact Source.refuses_of_fault h

theorem listRefused_succ (hitems : ItemsRefused source budget) :
    ListRefused source (budget + 1) := by
  intro start ls e h i cs hcs
  unfold parseList at h
  split at h
  · cases h
  · exact hitems _ _ _ h i cs hcs

theorem itemsRefused_succ (hvalue : ValueRefused source budget)
    (hitems : ItemsRefused source budget) : ItemsRefused source (budget + 1) := by
  intro start ls e h i cs hcs
  rw [parseItems] at h
  cases hv : parseValue source budget ls with
  | error e' =>
    rw [hv] at h
    cases h
    exact hvalue _ _ hv i cs hcs
  | ok r =>
    obtain ⟨v, mid⟩ := r
    obtain ⟨first, rfl, hfirst⟩ := (sound source budget).1 _ _ _ hv
    rw [hv] at h
    simp only [bind, Except.bind] at h
    split at h
    · exact Source.refuses_of_fault h
    · cases h
    · next position inner =>
      split at h
      · next e' hparse =>
        cases h
        obtain ⟨a, b, rfl, -, ha, hb⟩ := hcs.exists_sides (p := ',') rfl
        exact (hitems _ _ _ hparse _ _ hb).imp fun w hw => .next (hfirst _ _ ha).writes hw
      · cases h
    · exact Source.refuses_of_fault h

theorem refused (source : Source) (budget : Nat) :
    ValueRefused source budget ∧ ListRefused source budget ∧ ItemsRefused source budget := by
  induction budget with
  | zero =>
    refine ⟨?_, ?_, ?_⟩
    · intro ls e h i cs _
      rw [parseValue] at h
      exact Source.refuses_of_fault h
    · intro start ls e h i cs _
      rw [parseList] at h
      exact Source.refuses_of_fault h
    · intro start ls e h i cs _
      rw [parseItems] at h
      exact Source.refuses_of_fault h
  | succ budget ih =>
    obtain ⟨hvalue, hlist, hitems⟩ := ih
    exact ⟨valueRefused_succ hlist, listRefused_succ hitems, itemsRefused_succ hvalue hitems⟩

/-- There are three causes for which a text is refused. -/
theorem of_parse_error {text : String} (h : parse settings mode text = .error e) :
    (e = .digitLimit ∧ ReachesUnreadable text.toList) ∨
      (∃ w, e = .name (tooLong settings w) ∧ ReachesLongName settings mode w text.toList) ∨
      ∃ fault position, e = .parse (.selector ⟨fault, text, position⟩) := by
  unfold parse at h
  cases hlexemes : Selector.lexemes text with
  | error e' =>
    rw [hlexemes] at h
    cases h
    rcases Selector.of_lexemesFrom_error hlexemes with hlimit | ⟨fault, position, rfl⟩
    · exact .inl hlimit
    · exact .inr (.inr ⟨fault, some position, rfl⟩)
  | ok ls =>
    have hholds : Source.Holds ⟨settings, mode, text⟩ 0 text.toList ls :=
      ⟨List.prefix_refl _, hlexemes⟩
    rw [hlexemes] at h
    simp only [bind, Except.bind] at h
    split at h
    · cases h
    · next start inner =>
      split at h
      · next e' hlist =>
        cases h
        obtain ⟨a, b, htext, -, ha, hb⟩ := Source.Holds.exists_sides
          (show Source.Holds _ 0 text.toList ([] ++ ⟨.openParen, start⟩ :: inner) from hholds)
          (p := '(') rfl
        rcases (refused _ _).2.1 _ _ _ hlist _ _ hb with ⟨w, rfl, hw, hreaches⟩ | hfault
        · exact .inr (.inl ⟨w, rfl, ⟨_, Selector.lexes_iff.1 hholds.lexes⟩, hw, a, b, htext,
            Selector.lexes_nil_iff.1 ha.lexes, hreaches⟩)
        · obtain ⟨fault, position, rfl⟩ := hfault
          exact .inr (.inr ⟨fault, some position, rfl⟩)
      · split at h
        · cases h
        · cases h
          exact .inr (.inr ⟨_, _, rfl⟩)
    · cases h
      exact .inr (.inr ⟨_, _, rfl⟩)

end Refusals

/-! ## A text that comes to a long name is refused for it -/

section Reaching

variable {source : Source}

/-- A name is too long for the limit: reading its lexeme is refused. -/
theorem parseValue_of_long {s : String} {k : Nat} (h : isName w = true)
    (hlong : source.settings.nameLimit < w.length) (hs : s = String.ofList w) (budget : Nat)
    (ls : List PlacedLexeme) :
    parseValue source (budget + 1) (⟨.name s, k⟩ :: ls) =
      .error (.name (tooLong source.settings w)) := by
  subst hs
  rw [parseValue]
  simp only [Name.make_ofList_of_long h hlong, bind, Except.bind, tooLong]
  rfl

/-- These lexemes do not end a list, and the list is refused for the long name. -/
structure Refused (source : Source) (w : List Char) (ls : List PlacedLexeme) : Prop where
  first : ∃ l tail, ls = l :: tail ∧ l.lexeme ≠ .closeParen
  items : ∀ start budget, 3 * ls.length + 2 ≤ budget →
    parseItems source budget start ls = .error (.name (tooLong source.settings w))

theorem Refused.list {ls : List PlacedLexeme} (h : Refused source w ls) {start budget : Nat}
    (hbudget : 3 * ls.length + 3 ≤ budget) :
    parseList source budget start ls = .error (.name (tooLong source.settings w)) := by
  obtain ⟨budget, rfl⟩ := Nat.exists_eq_add_of_le' (Nat.one_le_of_lt hbudget)
  obtain ⟨l, ls, rfl, hl⟩ := h.first
  rw [parseList]
  · exact h.items start budget (by omega)
  · intro k ms heq
    cases heq
    exact hl rfl

theorem Reaches.refused (h : Reaches (.within source.settings) source.mode w cs)
    (hlong : source.settings.nameLimit < w.length) :
    ∀ i ls, source.Holds i cs ls → Refused source w ls := by
  induction h with
  | @here a rest ha hname hrest =>
    intro i ls hcs
    have htokens : Tokens [.name (String.ofList w)] (a ++ (w ++ rest)) rest :=
      Selector.tokens_append_blank ha (.cons (.name hname hrest) (.nil rest))
    obtain ⟨j, ps, hps, hlexemes⟩ := htokens.exists_lexemesFrom source.text i
    obtain ⟨⟨s, k⟩, rfl, rfl⟩ := List.map_eq_singleton_iff.1 hps
    rw [hcs.2] at hlexemes
    obtain ⟨ms, -, rfl⟩ := exists_of_map_ok hlexemes.symm
    refine ⟨⟨_, _, rfl, by simp⟩, fun start budget hbudget => ?_⟩
    obtain ⟨budget, rfl⟩ := Nat.exists_eq_add_of_le' (Nat.le_of_add_left_le hbudget)
    rw [List.singleton_append, parseItems, parseValue_of_long hname hlong rfl]
    rfl
  | @inside n a b hname hn ha _ ih =>
    intro i ls hcs
    obtain ⟨k, hk⟩ := Source.exists_of_lexes_singleton
      (Selector.lexes_name_iff.2 ⟨n, rfl, hname, ha⟩) (Source.prefix_sides hcs.1).1
    obtain ⟨ms, rfl, hms⟩ := hcs.exists_right (p := '(') rfl hk
    have hrefused := ih _ _ hms
    refine ⟨⟨_, _, rfl, by simp⟩, fun start budget hbudget => ?_⟩
    simp only [List.length_append, List.length_cons, List.length_nil] at hbudget
    obtain ⟨budget, rfl⟩ := Nat.exists_eq_add_of_le' (Nat.le_of_add_left_le hbudget)
    have hlist : ∀ start, parseList source budget start ms =
        .error (.name (tooLong source.settings w)) := fun start => hrefused.list (by omega)
    rw [List.singleton_append, parseItems, parseValue]
    simp only [Name.make_ofList hname hn, Rejection.ofName_ok, bind, Except.bind, hlist]
  | @next v a b ha _ ih =>
    intro i ls hcs
    obtain ⟨used, hused, hread⟩ := exists_accepted ha.spells i (Source.prefix_sides hcs.1).1
    obtain ⟨ms, rfl, hms⟩ := hcs.exists_right (p := ',') rfl hused
    have hrefused := ih _ _ hms
    refine ⟨?_, fun start budget hbudget => ?_⟩
    · obtain ⟨l, tail, rfl, hl⟩ := hread.first
      exact ⟨l, _, rfl, hl⟩
    · simp only [List.length_append, List.length_cons] at hbudget
      obtain ⟨budget, rfl⟩ := Nat.exists_eq_add_of_le' (Nat.one_le_of_lt hbudget)
      have hfirst := hread.value v rfl (⟨.comma, i + a.length⟩ :: ms) budget (by simp) (by omega)
      have hothers := hrefused.items start budget (by omega)
      rw [parseItems, hfirst]
      simp only [bind, Except.bind, hothers]

theorem parse_of_reachesLongName {text : String}
    (h : ReachesLongName settings mode w text.toList) :
    parse settings mode text = .error (.name (tooLong settings w)) := by
  obtain ⟨⟨ls, hls⟩, hlong, a, b, htext, ha, hreaches⟩ := h
  obtain ⟨ps, hps, -⟩ := (Selector.lexes_iff.2 hls).exists_lexemesFrom text 0
  have hlexemes : Selector.lexemes text = .ok ps := hps
  have hholds : Source.Holds ⟨settings, mode, text⟩ 0 (a ++ '(' :: b) ps := by
    rw [← htext]
    exact ⟨List.prefix_refl _, hps⟩
  have hblank := Source.holds_of_lexes_nil (Selector.lexes_nil_iff.2 ha)
    (Source.prefix_sides hholds.1).1
  obtain ⟨ms, rfl, hms⟩ := hholds.exists_right (p := '(') rfl hblank
  have hrefused := Reaches.refused hreaches hlong _ _ hms
  simp only [parse, hlexemes, bind, Except.bind, List.nil_append]
  rw [hrefused.list (Nat.le_refl _)]

end Reaching

/-! ## A text of the grammar is accepted or goes beyond the bounds -/

theorem exists_lexes_append_cons {a b : List Char} {p : Char} {l : Lexeme}
    (ha : ∃ ls, Lexes a ls) (hp : Lexeme.ofPunctuation? p = some l) (hb : ∃ ls, Lexes b ls) :
    ∃ ls, Lexes (a ++ p :: b) ls := by
  obtain ⟨_, ps, hps, rfl⟩ := ha
  obtain ⟨_, hb⟩ := hb
  obtain ⟨qs, hqs, rfl⟩ := hb.exists_lexemesFrom "" (0 + a.length + 1)
  refine ⟨_, ps ++ ⟨l, 0 + a.length⟩ :: qs, ?_, rfl⟩
  rw [Selector.lexemesFrom_append_cons hps hp rfl, hqs]
  rfl

/-- A text that may be read falls into tokens. -/
theorem Writes.exists_lexes (h : Writes .readable mode vs cs) : ∃ ls, Lexes cs ls := by
  have hblank : ∀ {b : List Char}, Text.allBlank b = true → ∃ ls, Lexes b ls :=
    fun hb => ⟨[], Selector.lexes_nil_iff.2 hb⟩
  have hname : ∀ {n a : List Char}, isName n = true → Padded n a → ∃ ls, Lexes a ls :=
    fun hn ha => ⟨_, Selector.lexes_name_iff.2 ⟨_, rfl, hn, ha⟩⟩
  induction h with
  | text h hcs => exact ⟨_, Selector.lexes_text_iff.2 ⟨_, _, rfl, h, hcs⟩⟩
  | number h hn hcs => exact ⟨_, Selector.lexes_number_iff.2 ⟨_, _, rfl, h, hn, hcs⟩⟩
  | plain h _ hcs => exact hname h hcs
  | empty h _ ha hb hc =>
    exact exists_lexes_append_cons (hname h ha) (p := '(') rfl
      (exists_lexes_append_cons (hblank hb) (p := ')') rfl (hblank hc))
  | call h _ ha _ hc ih =>
    exact exists_lexes_append_cons (hname h ha) (p := '(') rfl
      (exists_lexes_append_cons ih (p := ')') rfl (hblank hc))
  | cons _ _ iha ihb => exact exists_lexes_append_cons iha (p := ',') rfl ihb

/-- Behind what has lexemes and a parenthesis or comma the tokens go on as if the text began
there. -/
theorem reachesUnreadable_append_cons {a b : List Char} {p : Char} {l : Lexeme}
    (ha : ∃ ls, Lexes a ls) (hp : Lexeme.ofPunctuation? p = some l) (hb : ReachesUnreadable b) :
    ReachesUnreadable (a ++ p :: b) := by
  obtain ⟨_, ps, hps, -⟩ := ha
  have hlimit : Selector.lexemesFrom "" (0 + a.length + 1) b = .error .digitLimit :=
    Selector.lexemesFrom_eq_digitLimit_iff.2 hb
  have hall : Selector.lexemesFrom "" 0 (a ++ p :: b) = .error .digitLimit := by
    rw [Selector.lexemesFrom_append_cons hps hp rfl, hlimit]
    rfl
  exact Selector.lexemesFrom_eq_digitLimit_iff.1 hall

theorem separates_cons {p : Char} {l : Lexeme} (hp : Lexeme.ofPunctuation? p = some l)
    (rest : List Char) : ∀ c ∈ (p :: rest).head?, Separates c := by
  intro c hc
  cases hc
  exact .inr ⟨l, hp⟩

/-- A text of the grammar either has readable numerals only, or it comes to one that is not,
whatever follows it. -/
theorem Writes.readable_or (h : Writes .unbounded mode vs cs) :
    Writes .readable mode vs cs ∨
      ∀ rest, (∀ c ∈ rest.head?, Separates c) → ReachesUnreadable (cs ++ rest) := by
  induction h with
  | text h hcs => exact .inl (.text h hcs)
  | @number n w cs h _ hcs =>
    by_cases hn : n.IsReadable
    · exact .inl (.number h hn hcs)
    · obtain ⟨a, b, rfl, ha, hb⟩ := hcs
      refine .inr fun rest hrest => ?_
      have hlongest : n.Longest w (b ++ rest) :=
        h.longest fun c hc => (Selector.separates_append hb hrest c hc).ends
      rw [List.append_assoc, List.append_assoc]
      exact ⟨[], _, Selector.tokens_append_blank ha (.nil _), n, w, b ++ rest, rfl, hlongest, hn⟩
  | plain h hw hcs => exact .inl (.plain h hw hcs)
  | empty h hw ha hb hc => exact .inl (.empty h hw ha hb hc)
  | @call w a b c _ h hw ha _ hc ih =>
    rcases ih with hb | hb
    · exact .inl (.call h hw ha hb hc)
    · refine .inr fun rest _ => ?_
      have hname : ∃ ls, Lexes a ls := ⟨_, Selector.lexes_name_iff.2 ⟨w, rfl, h, ha⟩⟩
      have hinside := hb (')' :: (c ++ rest)) (separates_cons (p := ')') rfl _)
      have hall := reachesUnreadable_append_cons hname (p := '(') rfl hinside
      simpa using hall
  | @cons a b v vs _ _ iha ihb =>
    rcases iha with ha | ha
    · rcases ihb with hb | hb
      · exact .inl (.cons ha hb)
      · refine .inr fun rest hrest => ?_
        have hall := reachesUnreadable_append_cons ha.exists_lexes (p := ',') rfl (hb rest hrest)
        simpa using hall
    · refine .inr fun rest _ => ?_
      have hfirst := ha (',' :: (b ++ rest)) (separates_cons (p := ',') rfl _)
      simpa using hfirst

/-- A text of the grammar that may be read either has names up to the limit only, or it comes to
one that is too long, whatever follows it. -/
theorem Writes.within_or (settings : Settings) (h : Writes .readable mode vs cs) :
    Writes (.within settings) mode vs cs ∨
      ∃ w, settings.nameLimit < w.length ∧
        ∀ rest, (∀ c ∈ rest.head?, Separates c) →
          Reaches (.within settings) mode w (cs ++ rest) := by
  have hlong : ∀ {w cs : List Char}, isName w = true → Padded w cs →
      ∀ rest, (∀ c ∈ rest.head?, Separates c) → Reaches (.within settings) mode w (cs ++ rest) := by
    rintro w _ h ⟨a, b, rfl, ha, hb⟩ rest hrest
    rw [List.append_assoc, List.append_assoc]
    exact .here ha h fun c hc => (Selector.separates_append hb hrest c hc).not_isNamePart
  induction h with
  | text h hcs => exact .inl (.text h hcs)
  | number h hn hcs => exact .inl (.number h hn hcs)
  | @plain w cs h _ hcs =>
    rcases Int.lt_or_le settings.nameLimit w.length with hw | hw
    · exact .inr ⟨w, hw, hlong h hcs⟩
    · exact .inl (.plain h hw hcs)
  | @empty w a b c h _ ha hb hc =>
    rcases Int.lt_or_le settings.nameLimit w.length with hw | hw
    · refine .inr ⟨w, hw, fun rest _ => ?_⟩
      have hfirst := hlong h ha ('(' :: (b ++ ')' :: (c ++ rest))) (separates_cons (p := '(') rfl _)
      simpa using hfirst
    · exact .inl (.empty h hw ha hb hc)
  | @call w a b c _ h _ ha _ hc ih =>
    rcases Int.lt_or_le settings.nameLimit w.length with hw | hw
    · refine .inr ⟨w, hw, fun rest _ => ?_⟩
      have hfirst := hlong h ha ('(' :: (b ++ ')' :: (c ++ rest))) (separates_cons (p := '(') rfl _)
      simpa using hfirst
    · rcases ih with hb | ⟨n, hn, hb⟩
      · exact .inl (.call h hw ha hb hc)
      · refine .inr ⟨n, hn, fun rest _ => ?_⟩
        have hinside := hb (')' :: (c ++ rest)) (separates_cons (p := ')') rfl _)
        have hall := Reaches.inside h hw ha hinside
        simpa using hall
  | @cons a b v vs _ _ iha ihb =>
    rcases iha with ha | ⟨n, hn, ha⟩
    · rcases ihb with hb | ⟨n, hn, hb⟩
      · exact .inl (.cons ha hb)
      · refine .inr ⟨n, hn, fun rest hrest => ?_⟩
        have hall := Reaches.next ha (hb rest hrest)
        simpa using hall
    · refine .inr ⟨n, hn, fun rest _ => ?_⟩
      have hfirst := ha (',' :: (b ++ rest)) (separates_cons (p := ',') rfl _)
      simpa using hfirst

/-- A text of the grammar is within the bounds, or comes to something that is beyond them. -/
theorem WritesText.within_or (settings : Settings) (h : WritesText .unbounded mode vs cs) :
    WritesText (.within settings) mode vs cs ∨ ReachesUnreadable cs ∨
      ∃ w, ReachesLongName settings mode w cs := by
  rcases h with hblank | ⟨a, b, c, rfl, ha, hc, hempty | hvalues⟩
  · exact .inl (.inl hblank)
  · exact .inl (.inr ⟨a, b, c, rfl, ha, hc, .inl hempty⟩)
  · have hlexes : ∃ ls, Lexes a ls := ⟨[], Selector.lexes_nil_iff.2 ha⟩
    have hclose : ∀ d ∈ (')' :: c).head?, Separates d := separates_cons (p := ')') rfl c
    rcases hvalues.readable_or with hreadable | hunreadable
    · rcases hreadable.within_or settings with hwithin | ⟨w, hw, hreaches⟩
      · exact .inl (.inr ⟨a, b, c, rfl, ha, hc, .inr hwithin⟩)
      · have hinside : ∃ ls, Lexes (b ++ ')' :: c) ls :=
          exists_lexes_append_cons hreadable.exists_lexes (p := ')') rfl
            ⟨[], Selector.lexes_nil_iff.2 hc⟩
        obtain ⟨ls, hls⟩ := exists_lexes_append_cons hlexes (p := '(') rfl hinside
        exact .inr (.inr ⟨w, ⟨ls, Selector.lexes_iff.1 hls⟩, hw, a, _, rfl, ha,
          hreaches (')' :: c) hclose⟩)
    · exact .inr (.inl (reachesUnreadable_append_cons hlexes (p := '(') rfl
        (hunreadable (')' :: c) hclose)))

/-! ## The outcomes -/

section Outcomes

variable {text : String}

theorem parse_eq_digitLimit_iff :
    parse settings mode text = .error .digitLimit ↔ ReachesUnreadable text.toList := by
  constructor
  · intro h
    rcases of_parse_error h with ⟨-, hdigits⟩ | ⟨w, heq, -⟩ | ⟨fault, position, heq⟩
    · exact hdigits
    · cases heq
    · cases heq
  · intro h
    have hlexemes : Selector.lexemes text = .error .digitLimit :=
      Selector.lexemesFrom_eq_digitLimit_iff.2 h
    simp only [parse, hlexemes, bind, Except.bind]

theorem parse_eq_name_iff {e : NameError} :
    parse settings mode text = .error (.name e) ↔
      ∃ w, ReachesLongName settings mode w text.toList ∧ e = tooLong settings w := by
  constructor
  · intro h
    rcases of_parse_error h with ⟨heq, -⟩ | ⟨w, heq, hw⟩ | ⟨fault, position, heq⟩
    · cases heq
    · cases heq
      exact ⟨w, hw, rfl⟩
    · cases heq
  · rintro ⟨w, hw, rfl⟩
    exact parse_of_reachesLongName hw

/-- A text is malformed when it is not in the grammar and nothing beyond the bounds comes first. -/
theorem exists_fault_iff :
    (∃ fault position, parse settings mode text =
        .error (.parse (.selector ⟨fault, text, position⟩))) ↔
      (∀ vs, ¬ WritesText .unbounded mode vs text.toList) ∧ ¬ ReachesUnreadable text.toList ∧
        ∀ w, ¬ ReachesLongName settings mode w text.toList := by
  constructor
  · rintro ⟨fault, position, h⟩
    have hdigits : ¬ ReachesUnreadable text.toList := by
      intro hreaches
      rw [parse_eq_digitLimit_iff.2 hreaches] at h
      cases h
    have hname : ∀ w, ¬ ReachesLongName settings mode w text.toList := by
      intro w hreaches
      rw [parse_of_reachesLongName hreaches] at h
      cases h
    refine ⟨fun vs hvs => ?_, hdigits, hname⟩
    rcases hvs.within_or settings with hwithin | hreaches | ⟨w, hreaches⟩
    · rw [parse_eq_ok_iff_writes.2 hwithin] at h
      cases h
    · exact hdigits hreaches
    · exact hname w hreaches
  · rintro ⟨hgrammar, hdigits, hname⟩
    cases h : parse settings mode text with
    | ok vs =>
      have hwrites := parse_eq_ok_iff_writes.1 h
      exact absurd (hwrites.mono (fun _ _ => trivial) (fun _ _ => trivial)) (hgrammar vs)
    | error e =>
      rcases of_parse_error h with ⟨-, hreaches⟩ | ⟨w, -, hreaches⟩ | ⟨fault, position, rfl⟩
      · exact absurd hreaches hdigits
      · exact absurd hreaches (hname w)
      · exact ⟨fault, position, rfl⟩

end Outcomes

/-- What the parser makes of a text: the values that it writes, just when it is in the language; a
refusal for its digits, just when its tokens come to a whole number of too many; a refusal for a
name, just when it comes to that name and the name is too long; and a refusal as malformed just
when it is not in the grammar, whatever the bounds, and neither of the two comes first. -/
theorem parse_outcome (settings : Settings) (mode : CaseMode) (text : String) :
    (∀ vs, parse settings mode text = .ok vs ↔
      WritesText (.within settings) mode vs text.toList) ∧
    (parse settings mode text = .error .digitLimit ↔ ReachesUnreadable text.toList) ∧
    (∀ e, parse settings mode text = .error (.name e) ↔
      ∃ w, ReachesLongName settings mode w text.toList ∧ e = tooLong settings w) ∧
    ((∃ fault position, parse settings mode text =
        .error (.parse (.selector ⟨fault, text, position⟩))) ↔
      (∀ vs, ¬ WritesText .unbounded mode vs text.toList) ∧ ¬ ReachesUnreadable text.toList ∧
        ∀ w, ¬ ReachesLongName settings mode w text.toList) ∧
    (∀ e, parse settings mode text = .error e → e = .digitLimit ∨ (∃ n, e = .name n) ∨
      ∃ fault position, e = .parse (.selector ⟨fault, text, position⟩)) := by
  refine ⟨fun vs => parse_eq_ok_iff_writes, parse_eq_digitLimit_iff, fun e => parse_eq_name_iff,
    exists_fault_iff, fun e h => ?_⟩
  rcases of_parse_error h with ⟨rfl, -⟩ | ⟨w, rfl, -⟩ | hfault
  · exact .inl rfl
  · exact .inr (.inl ⟨_, rfl⟩)
  · exact .inr (.inr hfault)

end FunctionCatalog.Parameter
