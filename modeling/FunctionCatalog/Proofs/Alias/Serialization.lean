import FunctionCatalog.Encoding.Marked
import FunctionCatalog.Proofs.Alias.RoundTrip
import FunctionCatalog.Proofs.Encoding.Json

/-
  FunctionCatalog: which alias sets survive being written and read.
  The data of a set are the texts of its aliases behind a marker for its mode, and reading the data
  is reading the text of the set (`ofData_toTexts`). Reading gives an equal set exactly if all
  aliases read again: what is read does (`rereads_of_parse`), and what is equal to it does as well
  (`Rereads.of_same`).
-/

namespace FunctionCatalog

namespace Alias

variable {settings : Settings} {a b : Alias}

/-! ## Equal aliases -/

theorem same_of_wording (h : a.wording = b.wording) : a.same b = true := by
  obtain ⟨hname, -, htarget, htoken⟩ := Wording.mk.inj h
  have hsame : sameTarget a.target b.target = true := by
    cases ha : a.target with
    | none =>
      rw [ha, Option.map_none, eq_comm, Option.map_eq_none_iff] at htarget
      rw [htarget]
      rfl
    | some s =>
      rw [ha, Option.map_some, eq_comm, Option.map_eq_some_iff] at htarget
      obtain ⟨t, hb, hst⟩ := htarget
      obtain ⟨hn, hv⟩ := Prod.mk.inj hst
      simp [hb, sameTarget, Selector.same, Name.same_of_value hn.symm, hv]
  simp [same, Name.same_of_value hname, hsame, htoken]

/-- Whether a target reads again does not depend on the mode of its name. -/
theorem ReadsAgain.of_same {s t : Selector} (hst : s.same t = true)
    (h : ReadsAgain settings s) : ReadsAgain settings t := by
  obtain ⟨-, hvalue⟩ : s.name.same t.name = true ∧ s.valueText = t.valueText := by
    simpa [Selector.same] using hst
  rcases h with hnone | ⟨hlist, hps, hlast⟩
  · exact .inl (hvalue ▸ hnone)
  · obtain ⟨ps, hread⟩ := exists_parse_inMode (.inr ⟨hlist, hps, hlast⟩) t.name.mode hlist
    rw [hvalue] at hlist hread hlast
    rw [String.ofList_toList] at hread
    refine .inr ⟨hlist, ⟨ps, ?_⟩, hlast⟩
    rw [Selector.parameters, if_pos hlist, hread]

theorem Rereads.of_same (hab : a.same b = true) (h : a.Rereads settings) : b.Rereads settings := by
  obtain ⟨⟨hname, htarget⟩, -⟩ : (a.name.same b.name = true ∧
      sameTarget a.target b.target = true) ∧ (a.token == b.token) = true := by
    simpa only [same, Bool.and_eq_true] using hab
  refine ⟨Name.fits_of_same hname h.name, fun t ht => ?_⟩
  cases hs : a.target with
  | none =>
    rw [hs, ht] at htarget
    cases htarget
  | some s =>
    rw [hs, ht] at htarget
    obtain ⟨hfits, hreads⟩ := h.target s hs
    have hnames : s.name.same t.name = true := (Bool.and_eq_true_iff.1 htarget).1
    exact ⟨Name.fits_of_same hnames hfits, hreads.of_same htarget⟩

/-! ## The text of an alias and the marker -/

theorem exists_text (a : Alias) : ∃ rest, a.text = a.name.value ++ rest := by
  unfold text
  split
  · exact ⟨_, String.append_assoc ..⟩
  · exact ⟨_, by rw [String.append_assoc, String.append_assoc]⟩
  · exact ⟨"", String.append_empty.symm⟩

/-- No alias is written as the marker of a mode. -/
theorem text_ne_modeMarker (a : Alias) : a.text ≠ modeMarker := by
  intro h
  obtain ⟨rest, htext⟩ := a.exists_text
  have hname := a.name.isName_value
  have hchars : a.name.value.toList ++ rest.toList = ['@'] := by
    rw [← String.toList_append, ← htext, h]
    rfl
  cases hn : a.name.value.toList with
  | nil =>
    rw [hn] at hname
    cases hname
  | cons c cs =>
    rw [hn] at hchars hname
    obtain ⟨rfl, -⟩ := List.cons.inj hchars
    cases hname

end Alias

namespace Marked

/-- A list of texts that are no markers is told from the marker in front of it. -/
theorem unmarkList_markList {mode : CaseMode} {texts : List String}
    (h : ∀ text ∈ texts, text ≠ modeMarker) :
    unmarkList (.list ((markList mode texts).map .text)) = .ok (texts.map .text, mode) := by
  have hnone : (texts.map Value.text).any isMarker = false := by
    simpa [isMarker, Value.text?] using h
  cases mode with
  | insensitive =>
    show (if (texts.map Value.text).any isMarker then _ else _) = _
    rw [hnone]
    rfl
  | sensitive =>
    cases texts with
    | nil => rfl
    | cons t ts =>
      have hfirst : isMarker (.text t) = false := by
        simpa [isMarker, Value.text?] using h t List.mem_cons_self
      rw [List.map_cons] at hnone
      simp only [markList, List.map_cons, unmarkList, hfirst, Bool.false_eq_true, if_false,
        bind, Except.bind, hnone]

end Marked

namespace AliasSet

variable {settings : Settings}

/-! ## The data of a set -/

/-- The texts that stand for an alias set. -/
theorem textsOf_asItems (s : AliasSet) : ItemSet.textsOf s.asItems.value = .ok s.toTexts := by
  have htexts : ((s.entries.map Item.alias).map Value.item).mapM
      (fun w => do Failure.ofPrint (← Item.ofValue w).text) = .ok (s.entries.map Alias.text) := by
    rw [List.mapM_map, List.mapM_map]
    exact mapM_eq_ok_map fun a _ => rfl
  have hvalue : s.asItems.value = .set .aliases s.mode (s.entries.map .alias) s.handle := rfl
  rw [hvalue, ItemSet.textsOf]
  simp only [Value.items?, Failure.ofOption, bind, Except.bind] at htexts ⊢
  rw [htexts]
  rfl

/-- Reading the data of a set is reading its text in its mode. -/
theorem ofData_toTexts (settings : Settings) (s : AliasSet) :
    ofData settings (.list (s.toTexts.map .text)) =
      Failure.ofRejection (parse settings s.mode s.text) := by
  have hmarkers : ∀ text ∈ s.entries.map Alias.text, text ≠ modeMarker := by
    intro text htext
    obtain ⟨a, -, rfl⟩ := List.mem_map.1 htext
    exact a.text_ne_modeMarker
  have htexts : ((s.entries.map Alias.text).map Value.text).mapM
      (fun item => Failure.ofOption .wrongKind item.text?) = .ok (s.entries.map Alias.text) := by
    rw [List.mapM_map]
    exact (mapM_eq_ok_map fun text _ => rfl).trans (congrArg _ (List.map_id _))
  rw [ofData, toTexts, Marked.unmarkList_markList hmarkers]
  simp only [bind, Except.bind, htexts]
  rfl

/-! ## Sets that are read as equal ones -/

theorem allSame_of_wordings {as bs : List Alias}
    (h : as.map Alias.wording = bs.map Alias.wording) : NamedSet.allSame as bs = true := by
  induction as generalizing bs with
  | nil =>
    obtain rfl := List.map_eq_nil_iff.1 h.symm
    rfl
  | cons a as ih =>
    cases bs with
    | nil => cases h
    | cons b bs =>
      obtain ⟨hab, hrest⟩ := List.cons.inj h
      exact Bool.and_eq_true_iff.2 ⟨Alias.same_of_wording hab, ih hrest⟩

theorem rereads_of_allSame {as bs : List Alias} (h : NamedSet.allSame as bs = true)
    (has : ∀ a ∈ as, a.Rereads settings) : ∀ b ∈ bs, b.Rereads settings := by
  induction as generalizing bs with
  | nil =>
    cases bs with
    | nil => simp
    | cons b bs => cases h
  | cons a as ih =>
    cases bs with
    | nil => simp
    | cons b bs =>
      obtain ⟨hab, hrest⟩ := Bool.and_eq_true_iff.1 h
      intro c hc
      rcases List.mem_cons.1 hc with rfl | hc
      · exact (has a List.mem_cons_self).of_same hab
      · exact ih hrest (fun d hd => has d (List.mem_cons_of_mem a hd)) c hc

/-- A set equal to `s` is what a reading gives. -/
def GivenBy {ε : Type} (s : AliasSet) (reading : Except ε AliasSet) : Prop :=
  ∃ t, reading = .ok t ∧ t.same s = true

theorem givenBy_ofRejection_iff {s : AliasSet} {reading : Except Rejection AliasSet} :
    s.GivenBy (Failure.ofRejection reading) ↔ s.GivenBy reading := by
  cases reading with
  | error e =>
    constructor <;> rintro ⟨t, ht, -⟩ <;> cases ht
  | ok t =>
    constructor <;> rintro ⟨u, hu, hsame⟩ <;> cases hu <;> exact ⟨t, rfl, hsame⟩

theorem givenBy_parse_iff {s : AliasSet} :
    s.GivenBy (parse settings s.mode s.text) ↔ s.Rereads settings := by
  constructor
  · rintro ⟨t, ht, hsame⟩
    rw [NamedSet.same, Bool.and_eq_true] at hsame
    exact rereads_of_allSame hsame.2 (rereads_of_parse ht)
  · intro h
    obtain ⟨t, ht, hmode, hwordings⟩ := exists_parse_text h
    refine ⟨t, ht, ?_⟩
    rw [NamedSet.same, Bool.and_eq_true, beq_iff_eq]
    exact ⟨hmode, allSame_of_wordings hwordings⟩

/-- An alias set survives being written as a text, as a list of texts and as JSON exactly if all
its aliases read again: no name is too long, and nothing stands behind the name of a target, or one
list that is read and that ends with its parenthesis. -/
theorem givenBy_iff_rereads (settings : Settings) (s : AliasSet) :
    (s.GivenBy (parse settings s.mode s.text) ↔ s.Rereads settings) ∧
    ∃ texts, ItemSet.textsOf s.asItems.value = .ok texts ∧
      (s.GivenBy (ofData settings (.list (texts.map .text))) ↔ s.Rereads settings) ∧
      (s.GivenBy (do ofData settings (← Json.read (Json.writeTexts texts))) ↔
        s.Rereads settings) := by
  have hdata : s.GivenBy (ofData settings (.list (s.toTexts.map .text))) ↔ s.Rereads settings := by
    rw [ofData_toTexts]
    exact givenBy_ofRejection_iff.trans givenBy_parse_iff
  refine ⟨givenBy_parse_iff, s.toTexts, s.textsOf_asItems, hdata, ?_⟩
  rw [Json.read_writeTexts]
  exact hdata

/-- The alias `a` of `f` with a text behind a list. -/
def trailingAlias : Alias where
  name := ⟨"a", .sensitive, Eq.refl true, .loose⟩
  target := some (Selector.make ⟨"f", .sensitive, by decide, .loose⟩ "(1), b g")
  token := none
  fits_target := by decide

/-- An alias may be made of a target that is read as something else: its set is written as
`a f(1), b g`, which is read as two aliases. -/
theorem trailing_alias_is_lost :
    Alias.make trailingAlias.name trailingAlias.target trailingAlias.token = .ok trailingAlias ∧
      ∃ s t : AliasSet, NamedSet.of {} .sensitive [trailingAlias] = .ok s ∧
        parse {} s.mode s.text = .ok t ∧ t.entries.map Alias.text = ["a f(1)", "b g"] ∧
        ¬ s.GivenBy (parse {} s.mode s.text) ∧
        ∃ texts, ItemSet.textsOf s.asItems.value = .ok texts ∧
          ¬ s.GivenBy (ofData {} (.list (texts.map .text))) := by
  refine ⟨by decide, ?_⟩
  have hrun : (NamedSet.of {} .sensitive [trailingAlias] >>= fun s =>
      (parse {} s.mode (AliasSet.text s)).map fun t =>
        (t.entries.map Alias.text, t.same s)).toOption = some (["a f(1)", "b g"], false) := by
    decide +kernel
  cases hs : NamedSet.of {} .sensitive [trailingAlias] with
  | error e =>
    rw [hs] at hrun
    cases hrun
  | ok s =>
    rw [hs] at hrun
    cases ht : parse {} s.mode (AliasSet.text s) with
    | error e =>
      simp only [bind, Except.bind, ht] at hrun
      cases hrun
    | ok t =>
      simp only [bind, Except.bind, ht] at hrun
      obtain ⟨htexts, hdiffer⟩ := Prod.mk.inj (Option.some.inj hrun)
      have hlost : ¬ GivenBy s (.ok t : Except Rejection AliasSet) := by
        rintro ⟨u, hu, hsame⟩
        cases hu
        rw [hdiffer] at hsame
        cases hsame
      refine ⟨s, t, rfl, ht, htexts, by rwa [ht], toTexts s, textsOf_asItems s, ?_⟩
      rw [ofData_toTexts, ht]
      exact fun h => hlost (givenBy_ofRejection_iff.1 h)

end AliasSet

end FunctionCatalog
