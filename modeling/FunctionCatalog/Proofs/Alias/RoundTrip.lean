import FunctionCatalog.Proofs.Alias.Layout
import FunctionCatalog.Proofs.Alias.Parts
import FunctionCatalog.Proofs.NamedSet.Change
import FunctionCatalog.Proofs.Selector.Format

/-
  FunctionCatalog: alias sets as text and back.
-/

namespace FunctionCatalog

theorem toList_intercalate_comma (t : String) (ts : List String) :
    (", ".intercalate (t :: ts)).toList =
      t.toList ++ ts.flatMap (fun u => ',' :: ' ' :: u.toList) := by
  induction ts generalizing t with
  | nil => simp
  | cons u ts ih =>
    rw [String.intercalate_cons_cons, String.toList_append, String.toList_append, ih u]
    simp

namespace Alias

variable {settings : Settings} {mode : CaseMode} {text : String}

/-! ## The text of an alias -/

theorem closed_tokenChars {token : Option String} (h : tokenFits token = true) :
    Closed false (tokenChars token) := by
  cases token with
  | none => exact .nil false
  | some t =>
    obtain ⟨-, hall⟩ := Bool.and_eq_true_iff.1 h
    refine .plain (by decide) (.of_all_isPlain fun c hc => ?_)
    have hfree := (Bool.and_eq_true_iff.1 (List.all_eq_true.1 hall c hc)).2
    simp only [aliasReserved, List.contains_eq_mem, List.mem_cons, List.not_mem_nil, or_false,
      Bool.not_eq_true', decide_eq_false_iff_not, not_or] at hfree
    simp [isPlain, hfree]

theorem closed_name (n : Name) : Closed false n.value.toList :=
  .of_all_isPlain fun c hc => isPlain_of_isNamePart (isNamePart_of_isName n.isName_value c hc)

theorem closed_valueText {s : Selector} (h : ReadsAgain settings s) :
    Closed false s.valueText.toList := by
  rcases h with h | ⟨hlist, ⟨ps, hps⟩, hlast⟩
  · rw [h]
    exact .nil false
  · obtain ⟨ws, b, heq, hws, hb⟩ := exists_list_of_getLast hlist hps hlast
    rw [heq]
    exact .append_of_all_isPlain (fun c hc => isPlain_of_isBlank (List.all_eq_true.1 hws c hc))
      (.list hb.closed (.nil false))

/-- No comma in the text of an alias stands outside of lists and literals. -/
theorem Rereads.closed {a : Alias} (h : a.Rereads settings) : Closed false a.text.toList := by
  rw [toList_text h]
  refine (closed_name a.name).append ?_
  have hfits := a.fits_target
  cases htarget : a.target with
  | none => exact .nil false
  | some s =>
    rw [htarget] at hfits
    obtain ⟨-, htoken, -⟩ := fits_some_iff.1 hfits
    exact .plain (by decide) (((closed_name s.name).append
      (closed_valueText (h.target s htarget).2)).append (closed_tokenChars htoken))

theorem withMode_self (a : Alias) : a.withMode settings a.name.mode = .ok a := by
  simp only [withMode, Name.withMode_of_mode, Rejection.ofName_ok, bind, Except.bind, withName,
    if_pos a.name.alike_refl]

instance : SteadyEntry Alias where
  withMode_of_mode := by
    rintro settings _ a rfl
    exact a.withMode_self

end Alias

namespace AliasSet
open Entry

variable {settings : Settings} {mode : CaseMode} {text : String}

/-- The aliases of a set can all be read again. -/
def Rereads (settings : Settings) (s : AliasSet) : Prop :=
  ∀ a ∈ s.entries, a.Rereads settings

/-- What the entries of a set say. -/
def wordings (s : AliasSet) : List Alias.Wording :=
  s.entries.map Alias.wording

/-- In one mode the keys are the names folded in it. -/
theorem map_key_of_mode {as : List Alias} (h : ∀ a ∈ as, a.name.mode = mode) :
    as.map key = as.map (fun a => mode.fold a.name.value) :=
  List.map_congr_left fun a ha => by simp [key, name, Name.key, h a ha]

/-- In one mode the folded names are told by the wordings. -/
theorem keys_of_mode {as : List Alias} (h : ∀ a ∈ as, a.name.mode = mode) :
    as.map key = (as.map Alias.wording).map (fun w => mode.fold w.name) := by
  rw [map_key_of_mode h, List.map_map]
  rfl

/-- Pieces that are white space and the text of an alias each are read as these aliases. -/
theorem exists_readsApart {as : List Alias} {pieces : List (Nat × List Char)}
    (hpieces : List.Forall₂ (fun p a => ∃ ws, Text.allBlank ws = true ∧
      p.2 = ws ++ a.text.toList) pieces as)
    (has : ∀ a ∈ as, a.Rereads settings ∧ a.name.mode = mode)
    (hkeys : as.Pairwise (fun a b => key a ≠ key b)) :
    ∃ bs, ReadsApart settings mode [] pieces bs ∧
      bs.map Alias.wording = as.map Alias.wording ∧ ∀ b ∈ bs, b.name.mode = mode := by
  obtain ⟨bs, hreads, hwordings, hmodes⟩ : ∃ bs, List.Forall₂
      (fun p b => Alias.parseEntry settings mode p.1 p.2 = .ok b) pieces bs ∧
        bs.map Alias.wording = as.map Alias.wording ∧ ∀ b ∈ bs, b.name.mode = mode := by
    clear hkeys
    induction hpieces with
    | nil => exact ⟨[], .nil, rfl, by simp⟩
    | @cons p a pieces as hpa _ ih =>
      obtain ⟨ws, hws, hentry⟩ := hpa
      obtain ⟨⟨hreads, rfl⟩, has⟩ := List.forall_mem_cons.1 has
      obtain ⟨b, hb, hwording, hmode⟩ := Alias.exists_parseEntry p.1 hreads hws
      rw [← hentry] at hb
      obtain ⟨bs, hbs, hwordings, hmodes⟩ := ih has
      exact ⟨b :: bs, .cons hb hbs, by simp [hwording, hwordings],
        List.forall_mem_cons.2 ⟨hmode, hmodes⟩⟩
  refine ⟨bs, ⟨hreads, by simp, ?_⟩, hwordings, hmodes⟩
  have hfolds : bs.map (fun b => mode.fold b.name.value) = as.map key := by
    rw [keys_of_mode fun a ha => (has a ha).2, ← hwordings, List.map_map]
    rfl
  exact List.pairwise_map.1 (hfolds ▸ List.pairwise_map.2 hkeys)

/-- Pieces of the text of a set: the text of each entry, with white space in front. -/
theorem pieces_of_map {pieces : List (Nat × List Char)} {a : Alias} {as : List Alias}
    (h : pieces.map (·.2) =
      a.text.toList :: (as.map (fun b => b.text.toList)).map (' ' :: ·)) :
    List.Forall₂ (fun p b => ∃ ws, Text.allBlank ws = true ∧ p.2 = ws ++ b.text.toList)
      pieces (a :: as) := by
  cases pieces with
  | nil => cases h
  | cons p pieces =>
    obtain ⟨hp, hpieces⟩ := List.cons.inj h
    refine .cons ⟨[], rfl, hp⟩ ?_
    rw [List.map_map] at hpieces
    clear h hp
    induction as generalizing pieces with
    | nil =>
      obtain rfl := List.map_eq_nil_iff.1 hpieces
      exact .nil
    | cons b as ih =>
      cases pieces with
      | nil => cases hpieces
      | cons q pieces =>
        obtain ⟨hq, hrest⟩ := List.cons.inj hpieces
        exact .cons ⟨[' '], rfl, hq⟩ (ih pieces hrest)

theorem text_cons {s : AliasSet} {a : Alias} {as : List Alias} (h : s.entries = a :: as) :
    s.text.toList =
      a.text.toList ++ (as.map (fun b => b.text.toList)).flatMap (fun f => ',' :: ' ' :: f) := by
  rw [AliasSet.text, h, List.map_cons]
  refine (toList_intercalate_comma _ _).trans ?_
  rw [List.flatMap_map, List.flatMap_map]

/-- A set with an entry has a text that is not blank. -/
theorem not_allBlank_text {s : AliasSet} {a : Alias} {as : List Alias} (h : s.entries = a :: as)
    (ha : a.Rereads settings) : Text.allBlank s.text.toList = false := by
  rw [text_cons h, Alias.toList_text ha]
  cases hn : a.name.value.toList with
  | nil =>
    have := a.name.isName_value
    rw [hn] at this
    cases this
  | cons c cs =>
    have hc := not_isBlank_head_of_isName a.name.isName_value []
    rw [List.append_nil, hn] at hc
    have hblank : Text.isBlank c = false := hc c rfl
    simp [Text.allBlank, hblank]

/-- A set whose aliases read again is read from its text, entry for entry. -/
theorem exists_parse_text {s : AliasSet} (h : s.Rereads settings) :
    ∃ t, parse settings s.mode s.text = .ok t ∧ t.mode = s.mode ∧ t.wordings = s.wordings := by
  cases hentries : s.entries with
  | nil =>
    have htext : s.text = "" := by
      rw [AliasSet.text, hentries]
      exact String.intercalate_nil
    refine ⟨NamedSet.empty s.mode, ?_, rfl, by simp [wordings, hentries, NamedSet.empty]⟩
    rw [parse, htext]
    rfl
  | cons a as =>
    have hall : ∀ b ∈ a :: as, b.Rereads settings ∧ b.name.mode = s.mode := by
      rw [← hentries]
      exact fun b hb => ⟨h b hb, s.mode_of_mem b hb⟩
    have hascending : AscendingBy key (a :: as) := hentries ▸ s.ascending
    have hconsists : Alias.Consists s.text.toList
        (a.text.toList :: (as.map (fun b => b.text.toList)).map (' ' :: ·)) := by
      refine ⟨List.cons_ne_nil _ _, List.forall_mem_cons.2 ⟨(hall a List.mem_cons_self).1.closed,
        ?_⟩, ?_⟩
      · rw [List.map_map]
        refine List.forall_mem_map.2 fun b hb => .plain (by decide) ?_
        exact (hall b (List.mem_cons_of_mem a hb)).1.closed
      · rw [Alias.intercalate_comma, List.flatMap_map, text_cons hentries]
    obtain ⟨pieces, hsplit, hpieces⟩ := Alias.exists_splitEntries_iff.2 hconsists
    obtain ⟨bs, hbs, hwordings, hmodes⟩ :=
      exists_readsApart (pieces_of_map hpieces) hall hascending.distinct
    have hkeys : bs.map key = (a :: as).map key := by
      rw [keys_of_mode hmodes, keys_of_mode (fun b hb => (hall b hb).2), hwordings]
    have hbs_ascending := hascending.of_map_eq hkeys
    obtain ⟨t, ht, htmode, htentries⟩ :=
      NamedSet.exists_of (NamedSet.mapM_withMode_of_mode settings hmodes) hbs_ascending.distinct
    refine ⟨t, ?_, htmode, ?_⟩
    · rw [parse, if_neg (by simp [not_allBlank_text hentries (hall a List.mem_cons_self).1]),
        hsplit]
      simp only [parseEntries_eq_ok_iff.2 hbs, bind, Except.bind, ht]
    · rw [wordings, htentries, sortDistinctBy_of_ascending hbs_ascending, hwordings, wordings,
        hentries]

/-! ## Sets that have been read -/

theorem rereads_of_readsApart {pieces : List (Nat × List Char)} {as : List Alias}
    (h : ReadsApart settings mode [] pieces as) (hclosed : ∀ p ∈ pieces, Closed false p.2) :
    ∀ a ∈ as, a.Rereads settings ∧ a.name.mode = mode := by
  intro a ha
  obtain ⟨p, hmem, hp⟩ := h.exists_of_mem a ha
  exact Alias.rereads_of_parseEntry (hclosed p hmem) hp

/-- Whatever set is read from a text can be read again from its own text. -/
theorem rereads_of_parse {s : AliasSet} (h : parse settings mode text = .ok s) :
    s.Rereads settings := by
  unfold parse at h
  split at h
  · cases h
    intro a ha
    cases ha
  · split at h
    · cases h
    · next pieces hsplit =>
      have hconsists := Alias.exists_splitEntries_iff.1 ⟨pieces, hsplit, rfl⟩
      obtain ⟨as, has, hof⟩ := exists_of_bind_ok h
      have hall := rereads_of_readsApart (parseEntries_eq_ok_iff.1 has)
        (List.forall_mem_map.1 hconsists.closed)
      obtain ⟨-, es, hes, hentries⟩ := NamedSet.exists_converted_of hof
      rw [NamedSet.mapM_withMode_of_mode settings (fun a ha => (hall a ha).2)] at hes
      cases hes
      intro a ha
      rw [hentries] at ha
      exact (hall a (mem_of_mem_sortDistinctBy ha)).1

/-- What a set says is all that its text depends on. -/
theorem text_of_wordings {s t : AliasSet} (h : t.wordings = s.wordings) : t.text = s.text := by
  have htexts : ∀ u : AliasSet,
      u.entries.map Alias.text = u.wordings.map Alias.Wording.text := by
    intro u
    rw [wordings, List.map_map]
    exact List.map_congr_left fun a _ => Alias.text_eq_wording_text a
  rw [text, text, htexts, htexts, h]

/-! ## Targets with values -/

/-- A selector with values that are written so reads again as a target. -/
theorem readsAgain_withValues {base t : Selector} {vs : List Value}
    (hvs : ∀ v ∈ vs, v.IsFormattable settings) (h : base.withValues vs = .ok t) :
    t.name = base.name ∧ Alias.ReadsAgain settings t := by
  obtain ⟨u, ps, hu, hname, -, hvalue⟩ := Selector.exists_withValues hvs base
  obtain rfl : u = t := Except.ok.inj (hu.symm.trans h)
  refine ⟨hname, ?_⟩
  rcases hvalue with ⟨hvalue, -⟩ | ⟨b, hlist, hspells⟩
  · exact .inl hvalue
  · have hopen : Selector.isListText u.valueText.toList = true := by
      rw [hlist]
      rfl
    have hread : u.parameters settings = .ok ps := by
      rw [Selector.parameters, if_pos hopen, hname]
      exact Parameter.parse_of_spellsList
        ⟨[], b, [], hlist, Selector.lexes_nil, hspells, Selector.lexes_nil⟩
    refine .inr ⟨hopen, ⟨ps, hread⟩, ?_⟩
    rw [hlist, ← List.cons_append, List.getLast?_append]
    rfl

/-- The names of a set are not too long, and its targets were given their values by
`Selector.withValues`. -/
def HasWrittenTargets (settings : Settings) (s : AliasSet) : Prop :=
  ∀ a ∈ s.entries, a.name.Fits settings ∧ ∀ t, a.target = some t →
    ∃ (base : Selector) (vs : List Value), base.name.Fits settings ∧
      (∀ v ∈ vs, v.IsFormattable settings) ∧ base.withValues vs = .ok t

theorem rereads_of_hasWrittenTargets {s : AliasSet} (h : s.HasWrittenTargets settings) :
    s.Rereads settings := by
  intro a ha
  obtain ⟨hname, htargets⟩ := h a ha
  refine ⟨hname, fun t ht => ?_⟩
  obtain ⟨base, vs, hfits, hvs, hwith⟩ := htargets t ht
  obtain ⟨htname, hreads⟩ := readsAgain_withValues hvs hwith
  exact ⟨htname ▸ hfits, hreads⟩

/-- The text of an alias set is read as a set that says the same, entry for entry, and has the same
text, provided that no name is too long and that behind the name of each target there is nothing,
or one list that is read and ends with its parenthesis. Every set that has been read is of this
kind, and so is every set whose targets were given their values. -/
theorem parse_text (settings : Settings) :
    (∀ s : AliasSet, s.Rereads settings →
      ∃ t, parse settings s.mode s.text = .ok t ∧ t.mode = s.mode ∧ t.wordings = s.wordings ∧
        t.text = s.text) ∧
    (∀ (mode : CaseMode) (text : String) (s : AliasSet), parse settings mode text = .ok s →
      s.Rereads settings) ∧
    (∀ s : AliasSet, s.HasWrittenTargets settings → s.Rereads settings) ∧
    (∀ (mode : CaseMode) (text : String) (s : AliasSet), parse settings mode text = .ok s →
      ∃ t, parse settings s.mode s.text = .ok t ∧ t.mode = s.mode ∧ t.wordings = s.wordings ∧
        t.text = s.text) := by
  have hround : ∀ s : AliasSet, s.Rereads settings →
      ∃ t, parse settings s.mode s.text = .ok t ∧ t.mode = s.mode ∧ t.wordings = s.wordings ∧
        t.text = s.text := by
    intro s hs
    obtain ⟨t, ht, hmode, hwordings⟩ := exists_parse_text hs
    exact ⟨t, ht, hmode, hwordings, text_of_wordings hwordings⟩
  exact ⟨hround, fun mode text s h => rereads_of_parse h, fun s h => rereads_of_hasWrittenTargets h,
    fun mode text s h => hround s (rereads_of_parse h)⟩

/-- A set with a comma and a parenthesis in a literal. -/
theorem parse_text_literal :
    ∃ s t : AliasSet, parse {} .sensitive "abs, big max(\"a,(b\", 2) tok" = .ok s ∧
      parse {} s.mode s.text = .ok t ∧ t.wordings = s.wordings ∧ t.text = s.text := by
  have hok : (parse {} .sensitive "abs, big max(\"a,(b\", 2) tok").isOk = true := by
    decide +kernel
  cases hs : parse {} .sensitive "abs, big max(\"a,(b\", 2) tok" with
  | error e =>
    rw [hs] at hok
    cases hok
  | ok s =>
    obtain ⟨t, ht, -, hwordings, htext⟩ := (parse_text {}).2.2.2 _ _ s hs
    exact ⟨s, t, rfl, ht, hwordings, htext⟩

end AliasSet

end FunctionCatalog
