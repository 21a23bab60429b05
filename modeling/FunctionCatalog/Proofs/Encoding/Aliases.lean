import FunctionCatalog.Proofs.Alias.Joining
import FunctionCatalog.Proofs.Alias.Serialization

/-
  FunctionCatalog: lists of alias texts as data.
  The elements of a list are read as one text with commas between them. A list of entry texts is
  read as the set of just these entries; but an element may also hold several entries, or only a
  part of one, and a lone blank element is read as no entry (`ofData_elements`).
-/

namespace FunctionCatalog

open Alias (Consists Means)

namespace Marked

/-- The elements of a list of texts behind the marker in front of them, and the mode that the marker
tells. -/
def behindMarker : List String → List String × CaseMode
  | [] => ([], .sensitive)
  | first :: rest =>
    if first = modeMarker then (rest, .insensitive) else (first :: rest, .sensitive)

variable {mode : CaseMode} {texts elements : List String}

theorem markList_of_behindMarker (h : behindMarker texts = (elements, mode)) :
    texts = markList mode elements := by
  cases texts with
  | nil =>
    cases h
    rfl
  | cons first rest =>
    rw [behindMarker] at h
    split at h
    · next hfirst =>
      cases h
      rw [hfirst]
      rfl
    · cases h
      rfl

/-- A marker that is not in front of all else is refused. -/
theorem exists_unmarkList_error (h : behindMarker texts = (elements, mode))
    (hstray : modeMarker ∈ elements) :
    ∃ f, unmarkList (.list (texts.map .text)) = .error f := by
  have hany : (elements.map Value.text).any isMarker = true := by
    simpa [isMarker, Value.text?] using hstray
  have hunmark : unmarkList (.list (texts.map .text)) =
      Failure.ofPrint (Value.list (elements.map .text)).display >>=
        fun shown => .error (.strayMarker shown) := by
    cases texts with
    | nil =>
      cases h
      cases hstray
    | cons first rest =>
      have hmarker : isMarker (.text first) = decide (first = modeMarker) := by
        simp [isMarker, Value.text?, Bool.beq_eq_decide_eq]
      rw [behindMarker] at h
      rw [List.map_cons, unmarkList, hmarker]
      split at h
      · next hfirst =>
        cases h
        simp only [hfirst, decide_true, if_true, hany]
      · next hfirst =>
        cases h
        rw [List.map_cons] at hany
        simp only [hfirst, decide_false, Bool.false_eq_true, if_false, List.map_cons, hany, if_true]
  rw [hunmark]
  cases Failure.ofPrint (Value.list (elements.map .text)).display <;> exact ⟨_, rfl⟩

end Marked

namespace AliasSet
open Entry Marked

variable {settings : Settings} {mode : CaseMode} {text : String} {texts elements : List String}
  {a : Alias} {as : List Alias} {s : AliasSet}

/-! ## Elements and the text that they make -/

/-- A text that on its own is read as a single alias. -/
def IsEntryText (settings : Settings) (mode : CaseMode) (text : String) (a : Alias) : Prop :=
  ∃ t, parse settings mode text = .ok t ∧ t.entries = [a]

theorem isEntryText_iff : IsEntryText settings mode text a ↔
    Closed false text.toList ∧ Means settings mode text.toList a := by
  constructor
  · rintro ⟨t, ht, hentries⟩
    obtain ⟨-, -, ⟨-, hnil⟩ | ⟨as, ⟨es, hes, has⟩, hperm⟩⟩ := parse_eq_ok_iff.1 ht
    · rw [hentries] at hnil
      cases hnil
    · rw [hentries] at hperm
      obtain rfl := List.singleton_perm.1 hperm
      obtain ⟨e, es, he, hnil, rfl⟩ := List.forall₂_cons_right_iff.1 has
      obtain rfl := List.forall₂_nil_right_iff.1 hnil
      have hjoined := hes.joined
      rw [List.intercalate_singleton] at hjoined
      subst hjoined
      exact ⟨hes.closed _ List.mem_cons_self, he⟩
  · rintro ⟨hclosed, hmeans⟩
    have hlists : Lists settings mode text.toList [a] :=
      ⟨[text.toList], Alias.consists_singleton hclosed, .cons hmeans .nil⟩
    obtain ⟨t, ht, -, hperm, -⟩ := exists_parse_of_lists hlists (List.nodup_singleton _)
    exact ⟨t, ht, List.perm_singleton.1 hperm⟩

theorem exists_isEntryText (settings : Settings) (mode : CaseMode) (text name : String)
    (h : (parse settings mode text).toOption.map (fun t => t.entries.map (fun a => a.name.value)) =
      some [name]) : ∃ a, IsEntryText settings mode text a ∧ a.name.value = name := by
  obtain ⟨t, ht, hnames⟩ := exists_of_toOption_map h
  obtain ⟨a, hentries, hname⟩ := List.map_eq_singleton_iff.1 hnames
  exact ⟨a, ⟨t, ht, hentries⟩, hname⟩

/-- The marker of a mode is no entry. -/
theorem not_isEntryText_modeMarker : ¬ IsEntryText settings mode modeMarker a := by
  intro h
  obtain ⟨ws, n, tail, name, hall, -, hmake, -⟩ := Alias.means_iff.1 (isEntryText_iff.1 h).2
  have hn := Name.isName_of_make hmake
  obtain ⟨c, n, rfl⟩ := List.exists_cons_of_ne_nil (ne_nil_of_isName hn)
  have hc : c ∈ modeMarker.toList := by simp [hall]
  obtain rfl : c = '@' := by simpa [modeMarker] using hc
  cases hn

theorem modeMarker_not_mem (has : List.Forall₂ (IsEntryText settings mode) elements as) :
    modeMarker ∉ elements := by
  induction has with
  | nil => exact List.not_mem_nil
  | cons ha _ ih =>
    refine List.not_mem_cons_of_ne_of_not_mem ?_ ih
    rintro rfl
    exact not_isEntryText_modeMarker ha

theorem forall₂_isEntryText_iff {fs : List String} :
    List.Forall₂ (IsEntryText settings mode) fs as ↔ (∀ f ∈ fs, Closed false f.toList) ∧
      List.Forall₂ (fun f a => Means settings mode f.toList a) fs as := by
  have hparts : IsEntryText settings mode =
      fun f a => Closed false f.toList ∧ Means settings mode f.toList a := by
    funext f a
    exact propext isEntryText_iff
  rw [hparts]
  exact List.forall₂_and_left _ _

/-- Elements that close all they open are the entries of the text that they make. -/
theorem lists_intercalate_iff {e : String} {es : List String}
    (hclosed : ∀ f ∈ e :: es, Closed false f.toList) :
    Lists settings mode (", ".intercalate (e :: es)).toList as ↔
      List.Forall₂ (IsEntryText settings mode) (e :: es) as := by
  have hconsists : Consists (", ".intercalate (e :: es)).toList
      (e.toList :: es.map (fun f => ' ' :: f.toList)) := by
    obtain ⟨he, hes⟩ := List.forall_mem_cons.1 hclosed
    refine ⟨List.cons_ne_nil _ _, List.forall_mem_cons.2 ⟨he, List.forall_mem_map.2 fun f hf => ?_⟩,
      ?_⟩
    · exact .plain (by decide) (hes f hf)
    · rw [Alias.intercalate_comma, List.flatMap_map, toList_intercalate_comma]
  -- the space in front of an entry does not count
  have hspace : (fun (f : String) b => Means settings mode (' ' :: f.toList) b) =
      fun f b => Means settings mode f.toList b := by
    funext f b
    have hblank : Text.allBlank [' '] = true := rfl
    have hnil : Text.allBlank [] = true := rfl
    exact propext ⟨fun h => h.restart hblank hnil, fun h => h.restart hnil hblank⟩
  rw [lists_iff hconsists, forall₂_isEntryText_iff, and_iff_right hclosed]
  cases as with
  | nil =>
    constructor
    · intro h
      cases h
    · intro h
      cases h
  | cons a as => rw [List.forall₂_cons, List.forall₂_cons, List.forall₂_map_left_iff, hspace]

/-- Elements that make a blank text are none, or a single blank one. -/
theorem blank_intercalate_iff : Text.allBlank (", ".intercalate elements).toList = true ↔
    elements = [] ∨ ∃ e, elements = [e] ∧ Text.allBlank e.toList = true := by
  cases elements with
  | nil => simp [Text.allBlank]
  | cons e es =>
    rw [toList_intercalate_comma, Text.allBlank_append]
    cases es with
    | nil => simp [Text.allBlank]
    | cons f es => simp [Text.allBlank, show Text.isBlank ',' = false by decide]

/-- Entry texts under names of their own make a text that is read as the set of their aliases. -/
theorem exists_parse_of_entryTexts (has : List.Forall₂ (IsEntryText settings mode) elements as)
    (hapart : as.Pairwise (fun a b => mode.fold a.name.value ≠ mode.fold b.name.value)) :
    ∃ s, parse settings mode (", ".intercalate elements) = .ok s ∧ s.mode = mode ∧
      s.entries.Perm as := by
  cases elements with
  | nil =>
    cases has
    exact ⟨_, if_pos (blank_intercalate_iff.2 (.inl rfl)), rfl, .nil⟩
  | cons e es =>
    have hlists := (lists_intercalate_iff (forall₂_isEntryText_iff.1 has).1).2 has
    obtain ⟨s, hs, hmode, hperm, -⟩ := exists_parse_of_lists hlists (by
      rw [map_key_of_mode hlists.mode_eq]
      exact List.pairwise_map.2 hapart)
    exact ⟨s, hs, hmode, hperm⟩

/-- Where the text of the elements can be read, each element is an entry of the set exactly if all
of them close what they open and have no comma outside of that, and none is blank and alone. -/
theorem entries_perm_iff (hs : parse settings mode (", ".intercalate elements) = .ok s) :
    (∃ as, List.Forall₂ (IsEntryText settings mode) elements as ∧ s.entries.Perm as) ↔
      (∀ e ∈ elements, Closed false e.toList) ∧
        ∀ e, elements = [e] → Text.allBlank e.toList = false := by
  constructor
  · rintro ⟨as, has, -⟩
    refine ⟨(forall₂_isEntryText_iff.1 has).1, ?_⟩
    rintro e rfl
    obtain ⟨a, _, ha, -, rfl⟩ := List.forall₂_cons_left_iff.1 has
    exact (isEntryText_iff.1 ha).2.not_allBlank
  · rintro ⟨hclosed, hlone⟩
    obtain ⟨-, -, ⟨hblank, hnil⟩ | ⟨as, hlists, hperm⟩⟩ := parse_eq_ok_iff.1 hs
    · rcases blank_intercalate_iff.1 hblank with rfl | ⟨e, he, hblank⟩
      · exact ⟨[], .nil, hnil ▸ .nil⟩
      · cases hblank.symm.trans (hlone e he)
    · cases elements with
      | nil => cases (blank_intercalate_iff.2 (.inl rfl)).symm.trans hlists.not_allBlank
      | cons e es => exact ⟨as, (lists_intercalate_iff hclosed).1 hlists, hperm⟩

/-! ## Data -/

/-- A list of texts is read as the text that its elements make, unless one of them is a marker. -/
theorem ofData_texts (settings : Settings) (h : behindMarker texts = (elements, mode))
    (hstray : modeMarker ∉ elements) : ofData settings (.list (texts.map .text)) =
      Failure.ofRejection (parse settings mode (", ".intercalate elements)) := by
  have hmarkers : ∀ text ∈ elements, text ≠ modeMarker := fun text htext heq =>
    hstray (heq ▸ htext)
  have htexts : (elements.map Value.text).mapM
      (fun item => Failure.ofOption .wrongKind item.text?) = .ok elements := by
    rw [List.mapM_map]
    exact (mapM_eq_ok_map fun text _ => rfl).trans (congrArg _ (List.map_id _))
  rw [ofData, markList_of_behindMarker h, unmarkList_markList hmarkers]
  simp only [bind, Except.bind, htexts]

theorem modeMarker_not_mem_of_ofData (h : behindMarker texts = (elements, mode))
    (hs : ofData settings (.list (texts.map .text)) = .ok s) : modeMarker ∉ elements := by
  intro hstray
  obtain ⟨f, hf⟩ := exists_unmarkList_error h hstray
  rw [ofData, hf] at hs
  cases hs

/-- A list of entry texts whose names are apart is read as the set of just these entries, in the mode
that the list tells. A list that can be read is read element by element exactly if each element
closes what it opens and has no comma outside of that, and none is blank and alone. -/
theorem ofData_elements (settings : Settings) (h : behindMarker texts = (elements, mode)) :
    (∀ as, List.Forall₂ (IsEntryText settings mode) elements as →
      as.Pairwise (fun a b => mode.fold a.name.value ≠ mode.fold b.name.value) →
      ∃ s, ofData settings (.list (texts.map .text)) = .ok s ∧ s.mode = mode ∧
        s.entries.Perm as ∧ s.entries.length = elements.length) ∧
    ∀ s, ofData settings (.list (texts.map .text)) = .ok s → s.mode = mode ∧
      s.entries.Pairwise (fun a b => mode.fold a.name.value ≠ mode.fold b.name.value) ∧
      ((∃ as, List.Forall₂ (IsEntryText settings mode) elements as ∧ s.entries.Perm as) ↔
        (∀ e ∈ elements, Closed false e.toList) ∧
          ∀ e, elements = [e] → Text.allBlank e.toList = false) := by
  constructor
  · intro as has hapart
    obtain ⟨s, hs, hmode, hperm⟩ := exists_parse_of_entryTexts has hapart
    refine ⟨s, ?_, hmode, hperm, hperm.length_eq.trans has.length_eq.symm⟩
    rw [ofData_texts settings h (modeMarker_not_mem has), hs]
    rfl
  · intro s hs
    rw [ofData_texts settings h (modeMarker_not_mem_of_ofData h hs)] at hs
    have hread := ok_of_mapError_ok hs
    have hmode := (parse_eq_ok_iff.1 hread).1
    refine ⟨hmode, ?_, entries_perm_iff hread⟩
    have hkeys := s.nodup_keys
    rw [map_key_of_mode fun a ha => (s.mode_of_mem a ha).trans hmode] at hkeys
    exact List.pairwise_map.1 hkeys

/-- A marker, a name and an alias with a comma in a literal. -/
theorem ofData_elements_marked :
    ∃ a b s, behindMarker ["@", "a", "B f(\",\")"] = (["a", "B f(\",\")"], .insensitive) ∧
      IsEntryText {} .insensitive "a" a ∧ IsEntryText {} .insensitive "B f(\",\")" b ∧
      ofData {} (.list (["@", "a", "B f(\",\")"].map .text)) = .ok s ∧ s.mode = .insensitive ∧
      s.entries.Perm [a, b] ∧ s.entries.length = 2 := by
  have hmarker : behindMarker ["@", "a", "B f(\",\")"] = (["a", "B f(\",\")"], .insensitive) := by
    decide
  obtain ⟨a, ha, hname⟩ := exists_isEntryText {} .insensitive "a" "a" (by decide +kernel)
  obtain ⟨b, hb, hname'⟩ :=
    exists_isEntryText {} .insensitive "B f(\",\")" "B" (by decide +kernel)
  have hapart : [a, b].Pairwise (fun a b => CaseMode.insensitive.fold a.name.value ≠
      CaseMode.insensitive.fold b.name.value) := by
    rw [List.pairwise_pair, hname, hname']
    decide +kernel
  obtain ⟨s, hs, hmode, hperm, hlength⟩ :=
    (ofData_elements {} hmarker).1 [a, b] (.cons ha (.cons hb .nil)) hapart
  exact ⟨a, b, s, hmarker, ha, hb, hs, hmode, hperm, hlength⟩

/-- An element that is no entry text becomes two entries. -/
theorem element_splits :
    ∃ s, ofData {} (.list (["a, b"].map .text)) = .ok s ∧ s.entries.length = 2 ∧
      ¬ ∃ a, IsEntryText {} .sensitive "a, b" a := by
  have htwo : (parse {} .sensitive "a, b").toOption.map (fun t => t.entries.length) = some 2 := by
    decide +kernel
  obtain ⟨s, hs, hlength⟩ := exists_of_toOption_map htwo
  refine ⟨s, ?_, hlength, ?_⟩
  · have hmarker : behindMarker ["a, b"] = (["a, b"], .sensitive) := by decide
    rw [ofData_texts {} hmarker (by decide), show ", ".intercalate ["a, b"] = "a, b" from rfl, hs]
    rfl
  · rintro ⟨a, t, ht, hentries⟩
    rw [Except.ok.inj (hs.symm.trans ht), hentries] at hlength
    cases hlength

end AliasSet

end FunctionCatalog
