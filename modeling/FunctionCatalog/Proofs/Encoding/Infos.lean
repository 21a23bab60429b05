import FunctionCatalog.Proofs.Aggregate.Offers
import FunctionCatalog.Proofs.Alias.Serialization
import FunctionCatalog.Proofs.Encoding.Marked
import FunctionCatalog.Proofs.ItemSet.Comparison

/-
  FunctionCatalog: infos and catalogs as data and back.
  Neither a token nor a name holds white space or a comma. So the text of an info falls into just
  these two words, that of a catalog into the texts of its infos, and with the space in it none of
  these is the marker of a mode, whatever the tokens look like. In a record the marker stands before
  the name, which starts with a letter. Main result: `encodings_lossless`.
-/

namespace FunctionCatalog

variable {settings : Settings} {mode : CaseMode}

/-! ## Cuts of a text -/

namespace Text

theorem splitWhere_eq (p : Char → Bool) (cs : List Char) : splitWhere p cs = cs.splitOnP p := by
  induction cs with
  | nil => rfl
  | cons c cs ih =>
    obtain ⟨piece, pieces, hcs⟩ := List.exists_cons_of_ne_nil (List.splitOnP_ne_nil p cs)
    rw [splitWhere, List.splitOnP_cons_eq_if_modifyHead, ih, hcs]
    rfl

/-- Two runs without white space are the words of what they make with a blank between them. -/
theorem words_pair {a b : List Char} {c : Char} (ha : a ≠ []) (hb : b ≠ [])
    (hacs : ∀ d ∈ a, isBlank d = false) (hbcs : ∀ d ∈ b, isBlank d = false)
    (hc : isBlank c = true) : words (a ++ c :: b) = [a, b] := by
  have hsplit : splitWhere isBlank (a ++ c :: b) = [a, b] := by
    rw [splitWhere_eq, List.splitOnP_append_cons_of_forall_mem hacs c hc,
      List.splitOnP_eq_singleton hbcs]
  rw [words, hsplit]
  simp [ha, hb]

end Text

/-! ## The text of an info -/

namespace Info

variable {i : Info}

/-- The same info as a new object. -/
def renewed (i : Info) : Info where
  name := i.name.inMode i.name.mode
  token := i.token
  isToken_token := i.isToken_token

/-- What is told of an info: its name as it is written, the mode of the name, and the token. -/
def told (i : Info) : String × CaseMode × String :=
  (i.name.value, i.name.mode, i.token)

theorem toList_text (i : Info) : i.text.toList = i.token.toList ++ ' ' :: i.name.value.toList := by
  rw [text, String.toList_append, String.toList_append, List.append_assoc]
  rfl

theorem ne_nil_of_token (i : Info) : i.token.toList ≠ [] :=
  (isToken_iff.1 i.isToken_token).1

theorem comma_not_mem_text (i : Info) : ',' ∉ i.text.toList := by
  rw [toList_text]
  intro hmem
  rcases List.mem_append.1 hmem with hmem | hmem
  · exact ((isToken_iff.1 i.isToken_token).2 _ hmem).2 (List.mem_singleton_self _)
  · rcases List.mem_cons.1 hmem with heq | hmem
    · exact absurd heq (by decide)
    · have hpart := isNamePart_of_isName i.name.isName_value _ hmem
      exact absurd hpart (by decide)

/-- No info is written as the marker of a mode. -/
theorem text_ne_modeMarker (i : Info) : i.text ≠ modeMarker := by
  intro h
  have hspace : ' ' ∈ i.text.toList := by
    rw [toList_text]
    exact List.mem_append_right _ List.mem_cons_self
  rw [h] at hspace
  exact absurd hspace (by decide)

/-- What is written for an info whose name is not too long is read as the same info. -/
theorem parse_written (h : i.name.Fits settings) :
    parse settings i.name.mode i.text = .ok i.renewed := by
  obtain ⟨hne, htoken⟩ := isToken_iff.1 i.isToken_token
  have hname := isNamePart_of_isName i.name.isName_value
  have hwords : Text.words i.text.toList = [i.token.toList, i.name.value.toList] := by
    rw [toList_text]
    exact Text.words_pair hne (ne_nil_of_isName i.name.isName_value) (fun c hc => (htoken c hc).1)
      (fun c hc => not_isBlank_of_isNamePart (hname c hc)) (by decide)
  rw [parse, hwords]
  simp only [String.ofList_toList, Name.make_of_fits h, Rejection.ofName_ok]
  exact dif_pos i.isToken_token

end Info

/-! ## The text and the data of a catalog -/

namespace InfoSet
open Entry

variable {s : InfoSet}

/-- The infos of a catalog as new objects are in its order. -/
theorem exists_of_renewed (settings : Settings) (s : InfoSet) :
    ∃ t, NamedSet.of settings s.mode (s.entries.map Info.renewed) = .ok t ∧ t.mode = s.mode ∧
      t.entries = s.entries.map Info.renewed := by
  refine NamedSet.exists_of_ascending settings (fun e he => ?_) (List.pairwise_map.2 s.ascending)
  obtain ⟨i, hi, rfl⟩ := List.mem_map.1 he
  exact s.mode_of_mem i hi

theorem mapM_parse_texts (h : ∀ i ∈ s.entries, i.name.Fits settings) :
    (s.entries.map Info.text).mapM (Info.parse settings s.mode) =
      .ok (s.entries.map Info.renewed) := by
  rw [List.mapM_map]
  refine mapM_eq_ok_map fun i hi => ?_
  rw [← show i.name.mode = s.mode from s.mode_of_mem i hi]
  exact Info.parse_written (h i hi)

theorem toList_text (s : InfoSet) :
    s.text.toList = [','].intercalate (s.entries.map (fun i => i.text.toList)) := by
  rw [text, SetKind.join, String.toList_intercalate, List.map_map]
  rfl

/-- The text of a catalog that has entries is not blank and falls into their texts. -/
theorem splitWhere_text (h : s.entries ≠ []) :
    Text.allBlank s.text.toList = false ∧
      Text.splitWhere (· == ',') s.text.toList = s.entries.map (fun i => i.text.toList) := by
  have hpieces : Text.splitWhere (· == ',') s.text.toList =
      s.entries.map (fun i => i.text.toList) := by
    rw [Text.splitWhere_eq, toList_text]
    refine List.splitOn_intercalate ',' (fun cs hcs => ?_) (by simpa using h)
    obtain ⟨i, -, rfl⟩ := List.mem_map.1 hcs
    exact i.comma_not_mem_text
  refine ⟨?_, hpieces⟩
  obtain ⟨i, rest, hentries⟩ := List.exists_cons_of_ne_nil h
  -- the first character is that of a token
  obtain ⟨c, cs, htoken⟩ := List.exists_cons_of_ne_nil i.ne_nil_of_token
  have hblank : Text.isBlank c = false := by
    refine ((isToken_iff.1 i.isToken_token).2 c ?_).1
    rw [htoken]
    exact List.mem_cons_self
  have hhead : ∃ cs', s.text.toList = c :: cs' := by
    rw [toList_text, hentries, List.map_cons, i.toList_text, htoken]
    cases rest with
    | nil => exact ⟨_, List.intercalate_singleton⟩
    | cons j rest => exact ⟨_, List.intercalate_cons_cons⟩
  obtain ⟨cs', hcs'⟩ := hhead
  rw [hcs', Text.allBlank, List.all_cons, hblank, Bool.false_and]

/-- The text of a catalog is read as the set of its infos. -/
theorem parse_written (h : ∀ i ∈ s.entries, i.name.Fits settings) :
    parse settings s.mode s.text =
      NamedSet.of settings s.mode (s.entries.map Info.renewed) := by
  by_cases hentries : s.entries = []
  · have htext : s.text = "" := by
      rw [text, hentries]
      rfl
    rw [hentries, parse, htext]
    rfl
  · obtain ⟨hblank, hpieces⟩ := splitWhere_text hentries
    have hparse := mapM_parse_texts h
    rw [List.mapM_map] at hparse
    rw [parse, if_neg (by simp [hblank]), hpieces]
    dsimp only
    rw [List.mapM_map]
    simp only [Function.comp_def, String.ofList_toList] at hparse ⊢
    rw [hparse]
    rfl

/-- The texts that stand for a catalog. -/
theorem textsOf_asItems (s : InfoSet) : ItemSet.textsOf s.asItems.value = .ok s.toTexts := by
  have htexts : ((s.entries.map Item.info).map Value.item).mapM
      (fun w => do Failure.ofPrint (← Item.ofValue w).text) = .ok (s.entries.map Info.text) := by
    rw [List.mapM_map, List.mapM_map]
    exact mapM_eq_ok_map fun i _ => rfl
  have hvalue : s.asItems.value = .set .infos s.mode (s.entries.map .info) s.handle := rfl
  rw [hvalue, ItemSet.textsOf]
  simp only [Value.items?, Failure.ofOption, bind, Except.bind] at htexts ⊢
  rw [htexts]
  rfl

/-- The data of a catalog is read as the set of its infos. -/
theorem ofData_toTexts (h : ∀ i ∈ s.entries, i.name.Fits settings) :
    ofData settings (.list (s.toTexts.map .text)) =
      Failure.ofRejection (NamedSet.of settings s.mode (s.entries.map Info.renewed)) := by
  have hmarkers : ∀ text ∈ s.entries.map Info.text, text ≠ modeMarker := by
    intro text htext
    obtain ⟨i, -, rfl⟩ := List.mem_map.1 htext
    exact i.text_ne_modeMarker
  have hinfos : ((s.entries.map Info.text).map Value.text).mapM (fun item => do
      Failure.ofRejection (Info.parse settings s.mode (← Marked.textOf item))) =
        .ok (s.entries.map Info.renewed) := by
    rw [List.mapM_map, List.mapM_map]
    refine mapM_eq_ok_map fun i hi => ?_
    show Failure.ofRejection (Info.parse settings s.mode i.text) = _
    rw [← show i.name.mode = s.mode from s.mode_of_mem i hi, Info.parse_written (h i hi)]
    rfl
  rw [ofData, toTexts, Marked.unmarkList_markList hmarkers]
  simp only [bind, Except.bind] at hinfos ⊢
  rw [hinfos]

/-- A reading gives a catalog of the same mode that tells the same in the same order. -/
def RestoredBy {ε : Type} (s : InfoSet) (reading : Except ε InfoSet) : Prop :=
  ∃ t, reading = .ok t ∧ t.mode = s.mode ∧ t.entries.map Info.told = s.entries.map Info.told

theorem exists_restored (settings : Settings) (s : InfoSet) :
    ∃ t, NamedSet.of settings s.mode (s.entries.map Info.renewed) = .ok t ∧
      t.mode = s.mode ∧ t.entries.map Info.told = s.entries.map Info.told := by
  obtain ⟨t, ht, hmode, hentries⟩ := exists_of_renewed settings s
  refine ⟨t, ht, hmode, ?_⟩
  rw [hentries, List.map_map]
  rfl

end InfoSet

/-! ## Records -/

namespace Info
open Marked

/-- The record of a name and a token, in either order. -/
def IsRecord (name token : String) (d : Value) : Prop :=
  d = .ofFields [("name", .text name), ("token", .text token)] ∨
    d = .ofFields [("token", .text token), ("name", .text name)]

variable {name token : String} {d : Value}

theorem isPair_of_isRecord (h : IsRecord name token d) : IsPair "name" name "token" token d := h

theorem fields_of_isRecord (h : IsRecord name token d) :
    field "name" d = .ok (.text name) ∧ field "token" d = .ok (.text token) := by
  obtain ⟨hname, htoken⟩ := fields_of_isPair (by decide) (isPair_of_isRecord h)
  rw [field, field, hname, htoken]
  exact ⟨rfl, rfl⟩

/-- The order of the fields makes no difference. -/
theorem same_of_isRecord (h : IsRecord name token d) :
    Value.same (.ofFields [("name", .text name), ("token", .text token)]) d = true :=
  (same_iff_of_isPair (by decide) (isPair_of_isRecord h)).2 ⟨rfl, rfl⟩

/-- What is read from a record is an info of its name and its token. -/
theorem ofData_of_isRecord (settings : Settings) (h : IsRecord name token d) :
    Item.ofData settings d = (do
      let n ← Failure.ofRejection (Rejection.ofName
        (Name.make settings (unmark name).1 (unmark name).2))
      (Failure.ofRejection (make n token)).map .info) := by
  obtain ⟨hname, htoken⟩ := fields_of_isRecord h
  rw [Item.ofData, nameField, hname]
  show (Failure.ofRejection (Rejection.ofName (Name.make settings (unmark name).1
    (unmark name).2)) >>= fun n => field "token" d >>= fun v => Item.makeInfo n v) = _
  rw [htoken]
  rfl

/-- An info whose name is not too long is read from its record. -/
theorem ofData_toData {i : Info} (h : i.name.Fits settings) :
    Item.ofData settings i.toData = .ok (.info i.renewed) := by
  have hmake : make (i.name.inMode i.name.mode) i.token = .ok i.renewed := dif_pos i.isToken_token
  have hrecord : IsRecord (mark i.name.mode i.name.value) i.token i.toData := .inl rfl
  rw [ofData_of_isRecord settings hrecord, unmark_mark, Name.make_of_fits h]
  show (Failure.ofRejection (make (i.name.inMode i.name.mode) i.token)).map Item.info = _
  rw [hmake]
  rfl

/-- The record of what is read from a record is that record. -/
theorem toData_of_ofData (h : IsRecord name token d) {j : Item}
    (hj : Item.ofData settings d = .ok j) :
    ofTokened (.item j) = .ok (.ofFields [("name", .text name), ("token", .text token)]) := by
  rw [ofData_of_isRecord settings h] at hj
  obtain ⟨n, hn, hj⟩ := exists_of_bind_ok hj
  obtain ⟨i, hi, rfl⟩ := exists_of_map_ok hj
  obtain ⟨hvalue, hmode, -⟩ := Name.make_eq_ok (ok_of_mapError_ok (ok_of_mapError_ok hn))
  have hmake := ok_of_mapError_ok hi
  unfold make at hmake
  split at hmake
  · obtain rfl := Except.ok.inj hmake
    show Except.ok (Value.ofFields [("name", .text (mark n.mode n.value)), ("token", .text token)]) =
      _
    rw [hmode, hvalue, mark_unmark]
  · cases hmake

end Info

/-- Infos and catalogs survive being written and read as long as no name is longer than is allowed.
An info is read from its record with the same raw name, mode and token. A catalog is read from its
text, from its list of texts and from JSON in the same mode, with the same infos in the same order.
And a record of a name and a token from which an info is read is, in either order, equal to the
record that is written for that info. -/
theorem encodings_lossless (settings : Settings) :
    (∀ i : Info, i.name.Fits settings → ∃ d, Marked.ofTokened (.item (.info i)) = .ok d ∧
      ∃ j, Item.ofData settings d = .ok (.info j) ∧ j.told = i.told) ∧
    (∀ s : InfoSet, (∀ i ∈ s.entries, i.name.Fits settings) →
      s.RestoredBy (InfoSet.parse settings s.mode s.text) ∧
      ∃ texts, ItemSet.textsOf s.asItems.value = .ok texts ∧
        s.RestoredBy (InfoSet.ofData settings (.list (texts.map .text))) ∧
        s.RestoredBy (do InfoSet.ofData settings (← Json.read (Json.writeTexts texts)))) ∧
    ∀ (name token : String) (d : Value), Info.IsRecord name token d →
      ∀ j, Item.ofData settings d = .ok j →
        ∃ e, Marked.ofTokened (.item j) = .ok e ∧ e.same d = true := by
  refine ⟨fun i hi => ⟨i.toData, rfl, i.renewed, Info.ofData_toData hi, rfl⟩, fun s hs => ?_,
    fun name token d hd j hj => ⟨_, Info.toData_of_ofData hd hj, Info.same_of_isRecord hd⟩⟩
  obtain ⟨t, ht, hrestored⟩ := s.exists_restored settings
  have hdata : InfoSet.ofData settings (.list (s.toTexts.map .text)) = .ok t := by
    rw [InfoSet.ofData_toTexts hs, ht]
    rfl
  refine ⟨⟨t, (InfoSet.parse_written hs).trans ht, hrestored⟩, s.toTexts, s.textsOf_asItems,
    ⟨t, hdata, hrestored⟩, t, ?_, hrestored⟩
  rw [Json.read_writeTexts]
  exact hdata

/-- A catalog that ignores case and has tokens that look like its marker. -/
def InfoSet.atSigns : InfoSet :=
  Aggregate.pairCatalog .insensitive
    (Aggregate.letter .insensitive "a" "@" (Eq.refl true) (Eq.refl true))
    (Aggregate.letter .insensitive "B" "@@" (Eq.refl true) (Eq.refl true)) rfl rfl (by decide)

theorem encodings_lossless_atSigns :
    (∀ i ∈ InfoSet.atSigns.entries, i.name.Fits {}) ∧ InfoSet.atSigns.text = "@ a,@@ B" ∧
      InfoSet.atSigns.toTexts = ["@", "@ a", "@@ B"] ∧
      InfoSet.atSigns.RestoredBy (InfoSet.parse {} .insensitive InfoSet.atSigns.text) ∧
      ∃ texts, ItemSet.textsOf InfoSet.atSigns.asItems.value = .ok texts ∧
        InfoSet.atSigns.RestoredBy (InfoSet.ofData {} (.list (texts.map .text))) ∧
        InfoSet.atSigns.RestoredBy (do InfoSet.ofData {} (← Json.read (Json.writeTexts texts))) := by
  have hfits : ∀ i ∈ InfoSet.atSigns.entries, i.name.Fits {} := by
    decide
  exact ⟨hfits, by decide, by decide, (encodings_lossless {}).2.1 InfoSet.atSigns hfits⟩

end FunctionCatalog
