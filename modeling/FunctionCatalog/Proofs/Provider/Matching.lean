import FunctionCatalog.Proofs.ItemSet.Building
import FunctionCatalog.Proofs.Provider.Originals

/-
  FunctionCatalog: catalogs that are matched by token.
  A renaming puts the first rename with its token in the place of an entry. A second one finds all
  of them in their places already, so it answers the very catalog that it is given, as does a second
  selection by tokens (`matching_by_token`). A change answers the receiver if that is equal to what
  comes of it; this is why both are said of every catalog that is equal to a result.
-/

namespace FunctionCatalog

variable {settings : Settings} {s t u r : InfoSet} {e i : Info}

open MergedView (newInfo token_newInfo)
open Aggregate (pairCatalog letter)

/-! ## Tokens -/

namespace ItemSet

/-- A change is what other entries make, or the receiver where that is equal to it. -/
theorem ofChange_update (settings : Settings) (s : ItemSet) (items : List Item) :
    s.ofChange (s.set.update settings items) =
      (of settings s.kind s.mode items).map (fun t => if t.set.same s.set then s else t) := by
  rw [NamedSet.update_eq, of, mode]
  cases NamedSet.of settings s.set.mode items with
  | error r => rfl
  | ok u =>
    show Except.ok { s with set := if u.same s.set then s.set else u } =
      .ok (if u.same s.set then s else ⟨s.kind, u⟩)
    cases u.same s.set <;> rfl

/-- Texts without repetitions are the same texts. -/
theorem exists_distinct_texts (texts : List String) :
    ∃ kept : List String, distinct (texts.map .text) = kept.map .text ∧
      ∀ x, x ∈ kept ↔ x ∈ texts := by
  have hseen : ∀ (seen : List String) (x : String),
      (seen.map Value.text).any (fun w => w.agrees (.text x)) = true ↔ x ∈ seen := fun seen x => by
    simp only [List.any_map, List.any_eq_true, Function.comp_def, Info.agrees_text, beq_iff_eq,
      exists_eq_right]
  have hfold : ∀ seen : List String, ∃ kept : List String, (texts.map Value.text).foldl
      (fun seen v => if seen.any (fun w => w.agrees v) then seen else seen ++ [v])
        (seen.map .text) = kept.map .text ∧ ∀ x, x ∈ kept ↔ x ∈ seen ∨ x ∈ texts := by
    induction texts with
    | nil => exact fun seen => ⟨seen, rfl, by simp⟩
    | cons y texts ih =>
      intro seen
      rw [List.map_cons, List.foldl_cons]
      by_cases hy : y ∈ seen
      · obtain ⟨kept, hkept, hmem⟩ := ih seen
        rw [if_pos ((hseen seen y).2 hy)]
        refine ⟨kept, hkept, fun x => (hmem x).trans ?_⟩
        rw [List.mem_cons]
        refine ⟨Or.imp_right .inr, ?_⟩
        rintro (hx | rfl | hx)
        · exact .inl hx
        · exact .inl hy
        · exact .inr hx
      · obtain ⟨kept, hkept, hmem⟩ := ih (seen ++ [y])
        rw [if_neg fun h => hy ((hseen seen y).1 h)]
        rw [List.map_append, List.map_singleton] at hkept
        refine ⟨kept, hkept, fun x => (hmem x).trans ?_⟩
        rw [List.mem_append, List.mem_singleton, List.mem_cons, or_assoc]
  obtain ⟨kept, hkept, hmem⟩ := hfold []
  exact ⟨kept, hkept, fun x => (hmem x).trans (or_iff_right List.not_mem_nil)⟩

theorem sortDistinctBy_id_congr {xs ys : List String} (h : ∀ x, x ∈ xs ↔ x ∈ ys) :
    sortDistinctBy id xs = sortDistinctBy id ys := by
  have hkeys := (ascendingBy_sortDistinctBy id xs).map_eq_of_mem_iff
    (ascendingBy_sortDistinctBy id ys) fun k => by
      rw [mem_map_sortDistinctBy, mem_map_sortDistinctBy, List.map_id, List.map_id, h]
  rwa [List.map_id, List.map_id] at hkeys

theorem mapM_text {f : Value → Option String} (hf : ∀ x, f (.text x) = some x)
    (texts : List String) : (texts.map Value.text).mapM f = some texts := by
  rw [List.mapM_map]
  induction texts with
  | nil => rfl
  | cons x texts ih =>
    rw [List.mapM_cons, ih, Function.comp_apply, hf]
    rfl

/-- The tokens of a catalog are those of its entries in ascending order, each once. -/
theorem tokens_asItems (s : InfoSet) :
    s.asItems.tokens = .ok ((sortDistinctBy id (s.entries.map (·.token))).map .text) := by
  obtain ⟨kept, hkept, hmem⟩ := exists_distinct_texts (s.entries.map (·.token))
  have htokens : (s.entries.map Info.tokened).map (·.token) =
      (s.entries.map (·.token)).map Value.text := by
    rw [List.map_map, List.map_map]
    rfl
  simp only [tokens, tokened_asItems, bind, Except.bind, htokens, hkept]
  rw [mapM_text fun _ => rfl, ← sortDistinctBy_id_congr hmem]

end ItemSet

namespace InfoSet

theorem itemsOf_value (r : InfoSet) : ItemSet.itemsOf r.asItems.value = .ok r.values := by
  show Except.ok ((r.entries.map Item.info).map Value.item) = _
  rw [List.map_map]
  rfl

theorem same_asItems : t.asItems.set.same s.asItems.set = t.same s := by
  have hall : NamedSet.allSame (t.entries.map Item.info) (s.entries.map Item.info) =
      NamedSet.allSame t.entries s.entries := by
    rw [Bool.eq_iff_iff, NamedSet.allSame_iff_forall₂, NamedSet.allSame_iff_forall₂,
      List.forall₂_map_left_iff, List.forall₂_map_right_iff]
    simp only [Entry.same, Item.same]
  exact congrArg (_ && ·) hall

/-- What a change answers that makes the catalog `t` of the entries of `s`. -/
theorem map_ok_asItems (s t : InfoSet) :
    Except.map (fun t => if t.set.same s.asItems.set then s.asItems else t)
      (.ok t.asItems : Except Failure ItemSet) = .ok (if t.same s then s else t).asItems := by
  show Except.ok (if t.asItems.set.same s.asItems.set then s.asItems else t.asItems) = _
  rw [same_asItems]
  cases t.same s <;> rfl

/-- An entry of one of two equal catalogs has an equal one in the other. -/
theorem exists_same_of_mem (h : u.same t = true) (he : e ∈ u.entries) :
    ∃ f ∈ t.entries, e.same f = true :=
  NamedSet.exists_same_of_allSame (Bool.and_eq_true_iff.1 h).2 he

theorem mode_of_same (h : u.same t = true) : u.mode = t.mode :=
  beq_iff_eq.1 (Bool.and_eq_true_iff.1 h).1

theorem same_symm (h : u.same t = true) : t.same u = true := by
  have hall := NamedSet.allSame_iff_forall₂.1 (Bool.and_eq_true_iff.1 h).2
  refine Bool.and_eq_true_iff.2 ⟨beq_iff_eq.2 (mode_of_same h).symm, ?_⟩
  exact NamedSet.allSame_iff_forall₂.2 (hall.flip.imp fun e f hfe => (e.same_comm f).trans hfe)

/-- A change to entries that are equal to those of the receiver answers the receiver. -/
theorem of_equal_entries (settings : Settings) {infos : List Info}
    (hmodes : ∀ i ∈ infos, i.name.mode = u.mode)
    (h : List.Forall₂ (fun i e => i.same e = true) infos u.entries) :
    (ItemSet.of settings .infos u.mode (infos.map .info)).map
      (fun t => if t.set.same u.asItems.set then u.asItems else t) = .ok u.asItems := by
  have hkeys : infos.map Entry.key = u.entries.map Entry.key := by
    rw [← List.forall₂_eq_eq_eq, List.forall₂_map_left_iff, List.forall₂_map_right_iff]
    refine List.forall₂_iff_zip.2 ⟨h.length_eq, fun hmem => ?_⟩
    obtain ⟨hi, he⟩ := List.of_mem_zip hmem
    exact NamedSet.key_eq_of_same_mem (hmodes _ hi) he ((List.forall₂_iff_zip.1 h).2 hmem)
  obtain ⟨t, hof, htmode, hentries⟩ :=
    NamedSet.exists_catalog_of settings hmodes (u.ascending.of_map_eq hkeys)
  have hsame : t.same u = true := by
    rw [NamedSet.same, htmode, beq_self_eq_true, Bool.true_and, NamedSet.allSame_iff_forall₂,
      hentries]
    exact h
  rw [hof, map_ok_asItems, hsame]
  rfl

/-! ## Renaming -/

theorem mode_newInfo (hmode : s.mode = r.mode) (hi : i ∈ s.entries) :
    (newInfo r i).name.mode = s.mode := by
  rw [newInfo]
  cases hfind : r.entries.find? (fun j => j.token == i.token) with
  | none => exact s.mode_of_mem i hi
  | some j => exact (r.mode_of_mem j (List.mem_of_find?_eq_some hfind)).trans hmode.symm

/-- The info that takes the place of an entry depends on the token of the entry alone, if a rename
has the token, and is the entry otherwise. -/
theorem newInfo_of_token (htoken : e.token = i.token) :
    newInfo r e = newInfo r i ∨ newInfo r e = e := by
  rw [newInfo, newInfo, htoken]
  cases r.entries.find? (fun j => j.token == i.token) with
  | none => exact .inr rfl
  | some j => exact .inl rfl

theorem change_renameIfPresent (settings : Settings) (s r : InfoSet) :
    s.asItems.change settings .renameIfPresent [r.asItems.value] =
      (ItemSet.of settings .infos s.mode ((s.entries.map (newInfo r)).map .info)).map
        (fun t => if t.set.same s.asItems.set then s.asItems else t) := by
  refine Eq.trans ?_ (ItemSet.ofChange_update settings s.asItems _)
  show (ItemSet.itemsOf r.asItems.value >>= fun vs => s.asItems.renameIfPresent settings vs) = _
  rw [itemsOf_value]
  exact MergedView.renameIfPresent_values settings s r

/-- A renaming is refused for the new names under which two tokens meet. Where there are none it
answers the catalog of the renamed entries, or the receiver if that is equal to it. -/
theorem renameIfPresent_cases (settings : Settings) (hmode : s.mode = r.mode) :
    ((∃ key, Disputed s.mode (s.entries.map (newInfo r)) key) ∧ ∃ names,
      s.asItems.change settings .renameIfPresent [r.asItems.value] =
        .error (.rejection (.duplicateNames names))) ∨
    ((¬ ∃ key, Disputed s.mode (s.entries.map (newInfo r)) key) ∧ ∃ t : InfoSet,
      BuiltOf s.mode (s.entries.map (newInfo r)) t ∧
        s.asItems.change settings .renameIfPresent [r.asItems.value] =
          .ok (if t.same s then s else t).asItems) := by
  have hcan : ∀ i ∈ s.entries.map (newInfo r), i.name.CanTake settings s.mode :=
    List.forall_mem_map.2 fun i hi => .inl (mode_newInfo hmode hi)
  rw [change_renameIfPresent]
  rcases ItemSet.of_infos_cases hcan with ⟨hsome, names, -, hof⟩ | ⟨hnone, t, ht, hof⟩
  · rw [hof]
    exact .inl ⟨hsome, names, rfl⟩
  · rw [hof, map_ok_asItems]
    exact .inr ⟨hnone, t, ht, rfl⟩

/-- Where every entry is equal to its rename already, the receiver is answered. -/
theorem renameIfPresent_of_renamed (settings : Settings) (hmode : u.mode = r.mode)
    (h : ∀ e ∈ u.entries, (newInfo r e).same e = true) :
    u.asItems.change settings .renameIfPresent [r.asItems.value] = .ok u.asItems := by
  have hmodes : ∀ i ∈ u.entries.map (newInfo r), i.name.mode = u.mode :=
    List.forall_mem_map.2 fun e he => mode_newInfo hmode he
  rw [change_renameIfPresent]
  refine of_equal_entries settings hmodes ?_
  rw [List.forall₂_map_left_iff, List.forall₂_same]
  exact h

/-- Entries with different tokens that get equal names. -/
def NamesMeet (s r : InfoSet) : Prop :=
  ∃ i ∈ s.entries, ∃ j ∈ s.entries, i.token ≠ j.token ∧
    s.mode.fold (newInfo r i).name.value = s.mode.fold (newInfo r j).name.value

instance (s r : InfoSet) : Decidable (s.NamesMeet r) :=
  inferInstanceAs (Decidable (∃ i ∈ s.entries, ∃ j ∈ s.entries, _))

theorem exists_disputed_iff :
    (∃ key, Disputed s.mode (s.entries.map (newInfo r)) key) ↔ s.NamesMeet r := by
  constructor
  · rintro ⟨key, _, hi', _, hj', hikey, hjkey, hne⟩
    obtain ⟨i, hi, rfl⟩ := List.mem_map.1 hi'
    obtain ⟨j, hj, rfl⟩ := List.mem_map.1 hj'
    rw [token_newInfo, token_newInfo] at hne
    exact ⟨i, hi, j, hj, hne, hikey.trans hjkey.symm⟩
  · rintro ⟨i, hi, j, hj, hne, hkey⟩
    refine ⟨_, _, List.mem_map_of_mem hi, _, List.mem_map_of_mem hj, hkey, rfl, ?_⟩
    rwa [token_newInfo, token_newInfo]

/-- The entries of `t` are equal to those of `s` under their new names. -/
structure StandsFor (s r t : InfoSet) : Prop where
  mode : t.mode = s.mode
  old : ∀ e ∈ t.entries, ∃ i ∈ s.entries, (newInfo r i).same e = true
  new : ∀ i ∈ s.entries, ∃ e ∈ t.entries, (newInfo r i).same e = true

/-- The catalog that a renaming of `s` by `r` answers. -/
structure Renamed (settings : Settings) (s r t : InfoSet) : Prop extends StandsFor s r t where
  tokens : ∃ tokens, s.asItems.tokens = .ok tokens ∧ t.asItems.tokens = .ok tokens
  /-- Where `r` has the token of an entry, its first info with the token is equal to the entry. -/
  advertised : ∀ e ∈ t.entries, ∀ j, r.entries.find? (fun j => j.token == e.token) = some j →
    e.same j = true
  own : ∀ e ∈ t.entries, r.entries.find? (fun j => j.token == e.token) = none → e ∈ s.entries
  /-- Another renaming answers the same object, also of any other catalog that is equal to it. -/
  again : ∀ u : InfoSet, u.same t = true →
    u.asItems.change settings .renameIfPresent [r.asItems.value] = .ok u.asItems

namespace StandsFor

theorem of_same (h : s.StandsFor r t) (hmode : s.mode = r.mode) (hut : u.same t = true) :
    s.StandsFor r u := by
  have hu : u.mode = s.mode := (mode_of_same hut).trans h.mode
  have htrans : ∀ i ∈ s.entries, ∀ f ∈ t.entries, ∀ e ∈ u.entries, (newInfo r i).same f = true →
      f.same e = true → (newInfo r i).same e = true := by
    intro i hi f hf e he
    have hfmode : f.name.mode = s.mode := (t.mode_of_mem f hf).trans h.mode
    have hemode : e.name.mode = s.mode := (u.mode_of_mem e he).trans hu
    exact Info.same_trans ((mode_newInfo hmode hi).trans hfmode.symm) (hfmode.trans hemode.symm)
  refine ⟨hu, fun e he => ?_, fun i hi => ?_⟩
  · obtain ⟨f, hf, hef⟩ := exists_same_of_mem hut he
    obtain ⟨i, hi, hif⟩ := h.old f hf
    exact ⟨i, hi, htrans i hi f hf e he hif ((f.same_comm e).trans hef)⟩
  · obtain ⟨f, hf, hif⟩ := h.new i hi
    obtain ⟨e, he, hfe⟩ := exists_same_of_mem (same_symm hut) hf
    exact ⟨e, he, htrans i hi f hf e he hif hfe⟩

/-- Entries fall together only with their token. -/
theorem tokens_eq (h : s.StandsFor r t) : t.asItems.tokens = s.asItems.tokens := by
  have htoken : ∀ {i e : Info}, (newInfo r i).same e = true → i.token = e.token := fun hsame =>
    (token_newInfo r _).symm.trans (Info.token_of_same hsame)
  rw [ItemSet.tokens_asItems, ItemSet.tokens_asItems]
  refine congrArg (fun ts => Except.ok (ts.map Value.text)) (ItemSet.sortDistinctBy_id_congr ?_)
  intro token
  rw [List.mem_map, List.mem_map]
  constructor
  · rintro ⟨e, he, rfl⟩
    obtain ⟨i, hi, hsame⟩ := h.old e he
    exact ⟨i, hi, htoken hsame⟩
  · rintro ⟨i, hi, rfl⟩
    obtain ⟨e, he, hsame⟩ := h.new i hi
    exact ⟨e, he, (htoken hsame).symm⟩

theorem advertised (h : s.StandsFor r t) (he : e ∈ t.entries) {j : Info}
    (hj : r.entries.find? (fun j => j.token == e.token) = some j) : e.same j = true := by
  obtain ⟨i, -, hsame⟩ := h.old e he
  have htoken : i.token = e.token := (token_newInfo r i).symm.trans (Info.token_of_same hsame)
  rw [newInfo, htoken, hj] at hsame
  rwa [Info.same_comm]

/-- A second renaming finds each entry in its place. -/
theorem again (settings : Settings) (h : s.StandsFor r t) (hmode : s.mode = r.mode) :
    t.asItems.change settings .renameIfPresent [r.asItems.value] = .ok t.asItems := by
  refine renameIfPresent_of_renamed settings (h.mode.trans hmode) fun e he => ?_
  obtain ⟨i, -, hsame⟩ := h.old e he
  have htoken : e.token = i.token := (Info.token_of_same hsame).symm.trans (token_newInfo r i)
  rcases newInfo_of_token htoken with hnew | hnew
  · rw [hnew]
    exact hsame
  · rw [hnew]
    exact Info.same_refl e

theorem renamed (settings : Settings) (h : s.StandsFor r t) (hmode : s.mode = r.mode)
    (hown : ∀ e ∈ t.entries, r.entries.find? (fun j => j.token == e.token) = none → e ∈ s.entries) :
    s.Renamed settings r t where
  toStandsFor := h
  tokens := ⟨_, ItemSet.tokens_asItems s, h.tokens_eq.trans (ItemSet.tokens_asItems s)⟩
  advertised := fun _ he _ => h.advertised he
  own := hown
  again := fun _ hut => (h.of_same hmode hut).again settings hmode

end StandsFor

/-- What is built of the renamed entries, or the receiver if that is equal to it. -/
theorem renamed_of_builtOf (settings : Settings) (hmode : s.mode = r.mode)
    (ht : BuiltOf s.mode (s.entries.map (newInfo r)) t) :
    s.Renamed settings r (if t.same s then s else t) := by
  have hmem : ∀ e ∈ t.entries, ∃ i ∈ s.entries, e = newInfo r i := by
    intro e he
    obtain ⟨j, hj, rfl, -⟩ := ht.first e he
    obtain ⟨i, hi, rfl⟩ := List.mem_map.1 (List.mem_of_find?_eq_some hj)
    exact ⟨i, hi, if_pos (mode_newInfo hmode hi)⟩
  have hstands : s.StandsFor r t := by
    refine ⟨ht.inMode, fun e he => ?_, fun i hi => ?_⟩
    · obtain ⟨i, hi, rfl⟩ := hmem e he
      exact ⟨i, hi, Info.same_refl _⟩
    · obtain ⟨e, he, hkey⟩ := (ht.names _).2 ⟨_, List.mem_map_of_mem hi, rfl⟩
      have hemode : e.name.mode = s.mode := (t.mode_of_mem e he).trans ht.inMode
      have hname : (newInfo r i).name.same e.name = true := by
        rw [Name.same_iff_key ((mode_newInfo hmode hi).trans hemode.symm), hkey, Name.key,
          mode_newInfo hmode hi]
      refine ⟨e, he, Bool.and_eq_true_iff.2 ⟨hname, beq_iff_eq.2 ?_⟩⟩
      exact ht.token e he _ (List.mem_map_of_mem hi) hkey.symm
  cases hts : t.same s with
  | true =>
    exact (hstands.of_same hmode (same_symm hts)).renamed settings hmode fun e he _ => he
  | false =>
    refine hstands.renamed settings hmode fun e he hnone => ?_
    obtain ⟨i, hi, rfl⟩ := hmem e he
    rw [token_newInfo] at hnone
    rwa [newInfo, hnone]

/-! ## Selecting -/

/-- Whether a catalog has a token. -/
def hasToken (r : InfoSet) (token : String) : Bool :=
  r.entries.any (fun j => j.token == token)

theorem change_filter (settings : Settings) (s r : InfoSet) :
    s.asItems.change settings .filter [r.asItems.value] =
      (ItemSet.of settings .infos s.mode
        ((s.entries.filter (fun i => r.hasToken i.token)).map .info)).map
          (fun t => if t.set.same s.asItems.set then s.asItems else t) := by
  have hkept : s.asItems.entries.filterM (fun i => do
      return (Tokened.find? (r.entries.map Info.tokened) (← i.tokenKey)).isSome) =
        .ok ((s.entries.filter (fun i => r.hasToken i.token)).map Item.info) := by
    refine filterM_map_eq_ok fun i _ => ?_
    show Except.ok (Tokened.find? (r.entries.map Info.tokened) (.text i.token)).isSome = _
    rw [Tokened.find?_map_tokened, Option.isSome_map, Except.ok.injEq, Bool.eq_iff_iff,
      List.find?_isSome, hasToken, List.any_eq_true]
  refine Eq.trans ?_ (ItemSet.ofChange_update settings s.asItems _)
  show (ItemSet.itemsOf r.asItems.value >>= fun vs => s.asItems.filter settings vs) = _
  rw [itemsOf_value]
  show s.asItems.filter settings r.values = _
  rw [ItemSet.filter, MergedView.mapM_ofValue_values]
  exact congrArg (· >>= fun kept => s.asItems.ofChange (s.asItems.set.update settings kept)) hkept

theorem hasToken_iff {token : String} :
    r.hasToken token = true ↔ ∃ j ∈ r.entries, j.token = token := by
  simp only [hasToken, List.any_eq_true, beq_iff_eq]

/-- A selection keeps the entries whose token the other catalog has. -/
theorem exists_filter (settings : Settings) (s r : InfoSet) :
    ∃ f : InfoSet, s.asItems.change settings .filter [r.asItems.value] = .ok f.asItems ∧
      f.mode = s.mode ∧ f.entries = s.entries.filter (fun i => r.hasToken i.token) := by
  have hkept : (s.entries.filter (fun i => r.hasToken i.token)).Sublist s.entries :=
    List.filter_sublist
  obtain ⟨t, hof, hmode, hentries⟩ := NamedSet.exists_catalog_of settings
    (fun i hi => s.mode_of_mem i (hkept.subset hi)) (List.Pairwise.sublist hkept s.ascending)
  rw [change_filter, hof, map_ok_asItems]
  refine ⟨_, rfl, ?_⟩
  cases hsame : t.same s with
  | false => exact ⟨hmode, hentries⟩
  | true =>
    have hlength := NamedSet.length_of_allSame (Bool.and_eq_true_iff.1 hsame).2
    rw [hentries] at hlength
    exact ⟨rfl, (hkept.eq_of_length hlength).symm⟩

/-- A selection that keeps every entry answers the receiver. -/
theorem filter_of_hasToken (settings : Settings)
    (h : ∀ i ∈ u.entries, r.hasToken i.token = true) :
    u.asItems.change settings .filter [r.asItems.value] = .ok u.asItems := by
  rw [change_filter, List.filter_eq_self.2 h]
  exact of_equal_entries settings u.mode_of_mem (List.forall₂_same.2 fun i _ => Info.same_refl i)

/-- The catalog that a selection from `s` by the tokens of `r` answers. -/
structure Selected (settings : Settings) (s r f : InfoSet) : Prop where
  mode : f.mode = s.mode
  mem_iff : ∀ i, i ∈ f.entries ↔ i ∈ s.entries ∧ ∃ j ∈ r.entries, j.token = i.token
  /-- Another selection answers the same object, also of any other catalog that is equal to it. -/
  again : ∀ u : InfoSet, u.same f = true →
    u.asItems.change settings .filter [r.asItems.value] = .ok u.asItems

theorem selected_of_entries (settings : Settings) (hmode : t.mode = s.mode)
    (hentries : t.entries = s.entries.filter (fun i => r.hasToken i.token)) :
    s.Selected settings r t := by
  have hmem : ∀ i, i ∈ t.entries ↔ i ∈ s.entries ∧ ∃ j ∈ r.entries, j.token = i.token := by
    intro i
    rw [hentries, List.mem_filter, hasToken_iff]
  refine ⟨hmode, hmem, fun u hut => filter_of_hasToken settings fun i hi => ?_⟩
  obtain ⟨j, hj, hij⟩ := exists_same_of_mem hut hi
  rw [Info.token_of_same hij]
  exact hasToken_iff.2 ((hmem j).1 hj).2

/-- Catalogs of one mode are matched by token. A renaming is refused for duplicates exactly where
entries with different tokens get equal names, and otherwise answers the renamed catalog; a
selection is never refused, and one by the own tokens answers the receiver. -/
theorem matching_by_token (settings : Settings) (s r : InfoSet) (hmode : s.mode = r.mode) :
    ((∃ names, s.asItems.change settings .renameIfPresent [r.asItems.value] =
      .error (.rejection (.duplicateNames names))) ↔ s.NamesMeet r) ∧
    (¬ s.NamesMeet r → ∃ t, s.asItems.change settings .renameIfPresent [r.asItems.value] =
      .ok t.asItems ∧ s.Renamed settings r t) ∧
    (∃ f, s.asItems.change settings .filter [r.asItems.value] = .ok f.asItems ∧
      s.Selected settings r f) ∧
    s.asItems.change settings .filter [s.asItems.value] = .ok s.asItems := by
  refine ⟨?_, fun hnone => ?_, ?_, ?_⟩
  · rcases renameIfPresent_cases settings hmode with ⟨hmeet, hrefused⟩ | ⟨hnone, t, -, hof⟩
    · exact iff_of_true hrefused (exists_disputed_iff.1 hmeet)
    · refine iff_of_false ?_ (mt exists_disputed_iff.2 hnone)
      rintro ⟨names, hrefused⟩
      cases hof.symm.trans hrefused
  · rcases renameIfPresent_cases settings hmode with ⟨hmeet, -⟩ | ⟨-, t, ht, hof⟩
    · exact absurd (exists_disputed_iff.1 hmeet) hnone
    · exact ⟨_, hof, renamed_of_builtOf settings hmode ht⟩
  · obtain ⟨f, hf, hfmode, hentries⟩ := exists_filter settings s r
    exact ⟨f, hf, selected_of_entries settings hfmode hentries⟩
  · exact filter_of_hasToken settings fun i hi => hasToken_iff.2 ⟨i, hi, rfl⟩

def twoTokens : InfoSet :=
  pairCatalog .sensitive (letter .sensitive "a" "p" (Eq.refl true) (Eq.refl true))
    (letter .sensitive "b" "q" (Eq.refl true) (Eq.refl true)) rfl rfl (by decide)

/-- The same names, each with the token of the other. -/
def exchanged : InfoSet :=
  pairCatalog .sensitive (letter .sensitive "a" "q" (Eq.refl true) (Eq.refl true))
    (letter .sensitive "b" "p" (Eq.refl true) (Eq.refl true)) rfl rfl (by decide)

/-- Two names for the second token, of which the first one is taken. -/
def secondTwice : InfoSet :=
  pairCatalog .sensitive (letter .sensitive "a" "q" (Eq.refl true) (Eq.refl true))
    (letter .sensitive "c" "q" (Eq.refl true) (Eq.refl true)) rfl rfl (by decide)

/-- Two entries can exchange their names, but none can take one that the other keeps. -/
theorem matching_by_token_exchanged :
    twoTokens.mode = exchanged.mode ∧ twoTokens.mode = secondTwice.mode ∧
      (∃ t, twoTokens.asItems.change {} .renameIfPresent [exchanged.asItems.value] =
        .ok t.asItems ∧ twoTokens.Renamed {} exchanged t) ∧
      ∃ names, twoTokens.asItems.change {} .renameIfPresent [secondTwice.asItems.value] =
        .error (.rejection (.duplicateNames names)) := by
  obtain ⟨-, hrenamed, -⟩ := matching_by_token {} twoTokens exchanged rfl
  obtain ⟨hrefused, -⟩ := matching_by_token {} twoTokens secondTwice rfl
  exact ⟨rfl, rfl, hrenamed (by decide +kernel), hrefused.2 (by decide +kernel)⟩

end InfoSet

end FunctionCatalog
