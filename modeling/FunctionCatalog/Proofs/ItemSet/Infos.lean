import FunctionCatalog.Proofs.ItemSet.Comparison
import FunctionCatalog.Proofs.ItemSet.Invariant

/-
  FunctionCatalog: sets that are built of infos.
  Of infos that come into one set some may share a folded name, but then they have one token: else
  the set is refused for their names (`exists_of_infos_iff`, `duplicates_of_infos_iff`). So what a
  set shows under a folded name is a single token (`Shows`), that of each of the infos of that name.
-/

namespace FunctionCatalog

variable {settings : Settings} {mode : CaseMode}

theorem Info.key_inMode (mode : CaseMode) (i : Info) :
    Entry.key (Item.info (i.inMode mode)) = mode.fold i.name.value := by
  obtain ⟨hvalue, hmode, -⟩ := i.inMode_eq mode
  show (i.inMode mode).name.mode.fold (i.inMode mode).name.value = _
  rw [hvalue, hmode]

namespace NamedSet

variable {infos : List Info} {s t : NamedSet Item} {i r : Info} {key token : String}

/-- The set has an info of the token under the folded name. -/
def Shows (t : NamedSet Item) (key token : String) : Prop :=
  ∃ i, .info i ∈ t.entries ∧ Entry.key (Item.info i) = key ∧ i.token = token

/-- Under a folded name there is one token. -/
theorem Shows.unique {token' : String} (h : t.Shows key token) (h' : t.Shows key token') :
    token = token' := by
  obtain ⟨i, hi, hkey, rfl⟩ := h
  obtain ⟨j, hj, rfl, rfl⟩ := h'
  exact congrArg Info.token (Item.info.inj (t.ascending.eq_of_key hi hj hkey))

/-! ## What a set of infos shows -/

theorem mapM_withMode_of_canTake (h : ∀ i ∈ infos, i.name.CanTake settings mode) :
    (infos.map Item.info).mapM (Entry.withMode settings mode) =
      .ok (infos.map (fun i => .info (i.inMode mode))) := by
  rw [List.mapM_map]
  exact mapM_eq_ok_map fun i hi => Item.withMode_info (h i hi)

theorem canTake_of_mapM {es : List Item}
    (h : (infos.map Item.info).mapM (Entry.withMode settings mode) = .ok es) :
    ∀ i ∈ infos, i.name.CanTake settings mode := by
  intro i hi
  obtain ⟨j, -, hj⟩ := exists_of_mapM_ok h (.info i) (List.mem_map_of_mem hi)
  exact Item.canTake_of_withMode hj

theorem mapM_withMode_infos {es : List Item}
    (h : (infos.map Item.info).mapM (Entry.withMode settings mode) = .ok es) :
    es = infos.map (fun i => .info (i.inMode mode)) :=
  Except.ok.inj (h.symm.trans (mapM_withMode_of_canTake (canTake_of_mapM h)))

/-- A set of infos has nothing but these in its mode. -/
theorem exists_of_mem_infos (h : of settings mode (infos.map .info) = .ok t) {e : Item}
    (he : e ∈ t.entries) : ∃ i ∈ infos, e = .info (i.inMode mode) := by
  obtain ⟨-, es, hes, hentries⟩ := exists_converted_of h
  rw [hentries, mapM_withMode_infos hes] at he
  obtain ⟨i, hi, rfl⟩ := List.mem_map.1 (mem_of_mem_sortDistinctBy he)
  exact ⟨i, hi, rfl⟩

/-- It shows the token of each of them under its name. -/
theorem shows_of (h : of settings mode (infos.map .info) = .ok t) (hi : i ∈ infos) :
    t.Shows (mode.fold i.name.value) i.token := by
  obtain ⟨-, es, hes, -, hstands⟩ := exists_standing_of h
  rw [mapM_withMode_infos hes] at hstands
  obtain ⟨x, hx, hkey, heq⟩ := hstands _ (List.mem_map_of_mem hi)
  rw [i.key_inMode mode] at hkey
  obtain ⟨j, -, rfl⟩ := exists_of_mem_infos h hx
  refine ⟨_, hx, hkey, ?_⟩
  rw [← (i.inMode_eq mode).2.2]
  rcases heq with heq | hsame
  · rw [Item.info.inj heq]
  · exact (ItemSet.same_info_iff.1 hsame).2

/-- What it shows is the token and the name of one of them. -/
theorem exists_of_shows (h : of settings mode (infos.map .info) = .ok t)
    (hshows : t.Shows key token) : ∃ i ∈ infos, mode.fold i.name.value = key ∧ i.token = token := by
  obtain ⟨j, hj, rfl, rfl⟩ := hshows
  obtain ⟨i, hi, heq⟩ := exists_of_mem_infos h hj
  obtain rfl := Item.info.inj heq
  exact ⟨i, hi, (i.key_inMode mode).symm, (i.inMode_eq mode).2.2.symm⟩

/-- Infos that came into one set under one name have one token. -/
theorem token_eq_of_fold {j : Info} (h : of settings mode (infos.map .info) = .ok t)
    (hi : i ∈ infos) (hj : j ∈ infos)
    (hname : mode.fold i.name.value = mode.fold j.name.value) : i.token = j.token :=
  (shows_of h hi).unique (hname ▸ shows_of h hj)

/-! ## Which infos make a set -/

/-- Infos of one folded name have one token. -/
def Agree (mode : CaseMode) (infos : List Info) : Prop :=
  ∀ i ∈ infos, ∀ j ∈ infos, mode.fold i.name.value = mode.fold j.name.value → i.token = j.token

/-- Infos of one token under one name are equal in the mode of a set. -/
theorem same_inMode {j : Info} (hname : mode.fold i.name.value = mode.fold j.name.value)
    (htoken : i.token = j.token) :
    Entry.same (Item.info (i.inMode mode)) (.info (j.inMode mode)) = true := by
  obtain ⟨hvalue, hmode, hown⟩ := i.inMode_eq mode
  obtain ⟨hvalue', hmode', hown'⟩ := j.inMode_eq mode
  refine ItemSet.same_info_iff.2 ⟨same_of_fold ?_, ?_⟩
  · rw [hmode, hvalue, hvalue', hname]
  · rw [hown, hown', htoken]

/-- Infos make a set if their names can take its mode and those of one name agree on the token. -/
theorem exists_of_infos_iff :
    (∃ t, of settings mode (infos.map Item.info) = .ok t) ↔
      (∀ i ∈ infos, i.name.CanTake settings mode) ∧ Agree mode infos := by
  constructor
  · rintro ⟨t, h⟩
    obtain ⟨-, es, hes, -⟩ := exists_converted_of h
    exact ⟨canTake_of_mapM hes, fun i hi j hj => token_eq_of_fold h hi hj⟩
  · rintro ⟨hcan, hagree⟩
    obtain ⟨t, ht, -⟩ := exists_of_agreeing (mapM_withMode_of_canTake hcan) (by
      refine List.pairwise_map.2 (List.pairwise_of_forall_mem_list fun i hi j hj hkey => ?_)
      rw [i.key_inMode mode, j.key_inMode mode] at hkey
      exact same_inMode hkey (hagree i hi j hj hkey))
    exact ⟨t, ht⟩

/-- Where a name cannot take the mode they are refused for it. -/
theorem exists_name_of_infos (h : ¬ ∀ i ∈ infos, i.name.CanTake settings mode) :
    ∃ e, of settings mode (infos.map Item.info) = .error (.name e) := by
  obtain ⟨i, hi⟩ := Option.ne_none_iff_exists'.1 (mt firstUnfit?_eq_none_iff.1 h)
  exact ⟨_, of_infos_of_firstUnfit? hi⟩

/-- They are refused for their names if these can take the mode but some do not agree. -/
theorem duplicates_of_infos_iff :
    (∃ names, of settings mode (infos.map Item.info) = .error (.duplicateNames names)) ↔
      (∀ i ∈ infos, i.name.CanTake settings mode) ∧ ¬ Agree mode infos := by
  constructor
  · rintro ⟨names, h⟩
    have hcan : ∀ i ∈ infos, i.name.CanTake settings mode := by
      refine Classical.byContradiction fun hcannot => ?_
      obtain ⟨e, he⟩ := exists_name_of_infos hcannot
      rw [he] at h
      cases h
    refine ⟨hcan, fun hagree => ?_⟩
    obtain ⟨t, ht⟩ := exists_of_infos_iff.2 ⟨hcan, hagree⟩
    rw [ht] at h
    cases h
  · rintro ⟨hcan, hagree⟩
    refine (of_cases (mapM_withMode_of_canTake hcan)).resolve_left fun h => ?_
    exact hagree (exists_of_infos_iff.1 h).2

/-- Infos of the mode that are in order make a catalog of just these. -/
theorem exists_catalog_of (settings : Settings) (hmode : ∀ i ∈ infos, i.name.mode = mode)
    (h : AscendingBy Entry.key infos) :
    ∃ t : InfoSet, ItemSet.of settings .infos mode (infos.map .info) = .ok t.asItems ∧
      t.mode = mode ∧ t.entries = infos := by
  have hmodes : ∀ e ∈ infos.map Item.info, (Entry.name e).mode = mode := by
    intro e he
    obtain ⟨i, hi, rfl⟩ := List.mem_map.1 he
    exact hmode i hi
  have hascending : AscendingBy Entry.key (infos.map Item.info) := List.pairwise_map.2 h
  obtain ⟨u, hu, humode, hentries⟩ := exists_of_ascending settings hmodes hascending
  obtain ⟨t, ht, hshown⟩ := ItemSet.exists_asItems (s := ⟨.infos, u⟩) rfl hentries
  refine ⟨t, ?_, (congrArg ItemSet.mode ht.symm).trans humode, hshown⟩
  rw [ItemSet.of, hu, ← ht]
  rfl

/-! ## Infos in a set of infos -/

/-- An info is in a set of infos if the set shows its token under its name. -/
theorem contains_info_iff (hinfos : ∀ e ∈ t.entries, ∃ j, e = .info j) :
    t.contains (.info r) = true ↔ t.Shows (t.fold r.name.value) r.token := by
  constructor
  · intro h
    rw [contains] at h
    split at h
    · cases h
    · next present hget =>
      obtain ⟨hmem, hkey⟩ := NamedSet.find?_eq_some_iff.1 hget
      obtain ⟨j, rfl⟩ := hinfos present hmem
      exact ⟨j, hmem, hkey, (ItemSet.same_info_iff.1 h).2⟩
  · rintro ⟨j, hj, hkey, htoken⟩
    have hget : t.get? r.name.value = some (.info j) :=
      NamedSet.find?_eq_some_iff.2 ⟨hj, hkey⟩
    have hfold : j.name.mode.fold j.name.value = j.name.mode.fold r.name.value := by
      have hmode : j.name.mode = t.mode := t.mode_of_mem _ hj
      have hown : Entry.key (Item.info j) = j.name.mode.fold j.name.value := rfl
      rw [← hown, hkey, hmode, fold]
    rw [contains, show (Entry.name (Item.info r)).value = r.name.value from rfl, hget]
    exact ItemSet.same_info_iff.2 ⟨same_of_fold hfold, htoken⟩

/-- Equal sets of infos show the same. -/
theorem shows_iff_of_same (h : s.same t = true) (hs : ∀ e ∈ s.entries, ∃ j, e = .info j)
    (ht : ∀ e ∈ t.entries, ∃ j, e = .info j) : s.Shows key token ↔ t.Shows key token := by
  rw [same, Bool.and_eq_true, beq_iff_eq] at h
  have hmodes : ∀ i j, .info i ∈ s.entries → .info j ∈ t.entries → i.name.mode = j.name.mode :=
    fun i j hi hj => (s.mode_of_mem _ hi).trans (h.1.trans (t.mode_of_mem _ hj).symm)
  constructor
  · rintro ⟨i, hi, rfl, rfl⟩
    obtain ⟨e, he, hsame⟩ := exists_same_of_allSame h.2 hi
    obtain ⟨j, rfl⟩ := ht e he
    obtain ⟨hname, htoken⟩ := ItemSet.same_info_iff.1 hsame
    exact ⟨j, he, (key_eq_of_same (e := Item.info i) (f := .info j) (hmodes i j hi he) hname).symm,
      htoken.symm⟩
  · rintro ⟨j, hj, rfl, rfl⟩
    obtain ⟨e, he, hsame⟩ := exists_same_of_allSame_right h.2 hj
    obtain ⟨i, rfl⟩ := hs e he
    obtain ⟨hname, htoken⟩ := ItemSet.same_info_iff.1 hsame
    exact ⟨i, he, key_eq_of_same (e := Item.info i) (f := .info j) (hmodes i j he hj) hname, htoken⟩

end NamedSet

end FunctionCatalog
