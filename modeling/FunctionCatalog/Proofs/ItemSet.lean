import FunctionCatalog.ItemSet.Basic
import FunctionCatalog.Proofs.Name
import FunctionCatalog.Proofs.NamedSet.Build

/-
  FunctionCatalog: catalogs in another mode.
  An info can be brought into a mode unless it has another one and its name is too long. Infos are
  refused for the first name that cannot be brought into the mode
  (`ItemSet.of_infos_of_firstUnfit?`). Those whose names differ in the mode make a catalog of just
  these infos.
-/

namespace FunctionCatalog

variable {settings : Settings} {mode : CaseMode}

/-! ## A single info -/

namespace Name

/-- Whether a name can be brought into a mode. -/
def CanTake (settings : Settings) (mode : CaseMode) (n : Name) : Prop :=
  n.mode = mode ∨ n.Fits settings

instance (settings : Settings) (mode : CaseMode) (n : Name) :
    Decidable (n.CanTake settings mode) :=
  inferInstanceAs (Decidable (_ ∨ _))

theorem canTake_of_withMode {n n' : Name} (h : n.withMode settings mode = .ok n') :
    n.CanTake settings mode := by
  unfold withMode at h
  split at h
  · next hmode => exact .inl hmode
  · obtain ⟨hvalue, -, hfits⟩ := make_eq_ok h
    refine .inr ?_
    unfold Fits at hfits ⊢
    rwa [hvalue] at hfits

end Name

theorem isToken_iff {reserved cs : List Char} :
    isToken reserved cs = true ↔ cs ≠ [] ∧ ∀ c ∈ cs, Text.isBlank c = false ∧ c ∉ reserved := by
  simp [isToken]

namespace Info

/-- The info with its name in a mode. -/
def inMode (mode : CaseMode) (i : Info) : Info :=
  if i.name.mode = mode then i else i.withName (i.name.inMode mode)

theorem withMode_of_canTake {i : Info} (h : i.name.CanTake settings mode) :
    i.withMode settings mode = .ok (i.inMode mode) := by
  unfold withMode inMode Name.withMode
  by_cases hmode : i.name.mode = mode
  · rw [if_pos hmode, if_pos hmode]
    have hsame : i.withName i.name = i := if_pos i.name.alike_refl
    exact congrArg Except.ok hsame
  · rw [if_neg hmode, if_neg hmode, Name.make_of_fits (h.resolve_left hmode)]
    rfl

theorem inMode_eq (mode : CaseMode) (i : Info) :
    (i.inMode mode).name.value = i.name.value ∧ (i.inMode mode).name.mode = mode ∧
      (i.inMode mode).token = i.token := by
  unfold inMode
  by_cases hmode : i.name.mode = mode
  · rw [if_pos hmode]
    exact ⟨rfl, hmode, rfl⟩
  · rw [if_neg hmode]
    have hother : (i.name.inMode mode).alike i.name = false := by
      simp [Name.alike, Name.inMode, Ne.symm hmode]
    rw [withName, hother]
    exact ⟨rfl, rfl, rfl⟩

end Info

theorem Item.withMode_info {i : Info} (h : i.name.CanTake settings mode) :
    (Item.info i).withMode settings mode = .ok (.info (i.inMode mode)) := by
  have hinfo := Info.withMode_of_canTake h
  unfold Info.withMode at hinfo
  unfold Item.withMode
  obtain ⟨n, hn, heq⟩ := exists_of_bind_ok hinfo
  show (Rejection.ofName (i.name.withMode settings mode) >>= fun n =>
    (Item.info i).withName settings n) = _
  rw [hn]
  exact congrArg (fun j => Except.ok (Item.info j)) (Except.ok.inj heq)

theorem Item.canTake_of_withMode {i j : Item} (h : i.withMode settings mode = .ok j) :
    i.name.CanTake settings mode := by
  obtain ⟨n, hn, -⟩ := exists_of_bind_ok h
  exact Name.canTake_of_withMode (ok_of_mapError_ok hn)

/-! ## Names that cannot be brought into the mode -/

/-- What is said of a name that is too long. -/
def Name.lengthError (settings : Settings) (n : Name) : NameError :=
  ⟨n.value, settings.nameLimit, .tooLong n.value.toList.length settings.nameLimit⟩

theorem Name.withMode_of_not_canTake {n : Name} (h : ¬ n.CanTake settings mode) :
    n.withMode settings mode = .error (n.lengthError settings) := by
  obtain ⟨hmode, hfits⟩ := not_or.1 h
  rw [withMode, if_neg hmode]
  unfold make
  simp only [if_neg (ne_nil_of_isName n.isName_value), if_pos (Int.not_le.1 hfits)]
  rfl

theorem Item.withMode_of_not_canTake {i : Item} (h : ¬ i.name.CanTake settings mode) :
    i.withMode settings mode = .error (.name (i.name.lengthError settings)) := by
  rw [withMode, Name.withMode_of_not_canTake h]
  rfl

section Unfit

variable {infos : List Info} {i : Info}

/-- The first info whose name cannot be brought into the mode. -/
def firstUnfit? (settings : Settings) (mode : CaseMode) (infos : List Info) : Option Info :=
  infos.find? (fun i => !decide (i.name.CanTake settings mode))

theorem firstUnfit?_eq_none_iff :
    firstUnfit? settings mode infos = none ↔ ∀ i ∈ infos, i.name.CanTake settings mode := by
  simp [firstUnfit?]

/-- Its name is what the infos are refused for. -/
theorem NamedSet.of_infos_of_firstUnfit? (h : firstUnfit? settings mode infos = some i) :
    of settings mode (infos.map Item.info) = .error (.name (i.name.lengthError settings)) := by
  obtain ⟨hcannot, before, after, rfl, hbefore⟩ := List.find?_eq_some_iff_append.1 h
  rw [Bool.not_eq_true', decide_eq_false_iff_not] at hcannot
  refine of_eq_error ?_
  rw [List.map_append, List.map_cons]
  refine mapM_eq_error (fun e he => ?_) (Item.withMode_of_not_canTake hcannot)
  obtain ⟨j, hj, rfl⟩ := List.mem_map.1 he
  have hcan := hbefore j hj
  rw [Bool.not_not, decide_eq_true_eq] at hcan
  exact ⟨_, Item.withMode_info hcan⟩

theorem ItemSet.of_infos_of_firstUnfit? (h : firstUnfit? settings mode infos = some i) :
    of settings .infos mode (infos.map .info) =
      .error (.rejection (.name (i.name.lengthError settings))) := by
  rw [of, NamedSet.of_infos_of_firstUnfit? h]
  rfl

end Unfit

/-! ## A whole catalog -/

namespace ItemSet

/-- The set holds these infos, with their names in its mode. -/
def Holds (s : ItemSet) (mode : CaseMode) (infos : List Info) : Prop :=
  s.kind = .infos ∧ s.mode = mode ∧ ∃ held : List Info, s.entries = held.map .info ∧
    held.Perm (infos.map (Info.inMode mode))

variable {infos : List Info}

/-- A set of infos is a catalog. -/
theorem exists_asItems {s : ItemSet} (hkind : s.kind = .infos)
    (hentries : s.entries = infos.map .info) :
    ∃ catalog : InfoSet, s = catalog.asItems ∧ catalog.entries = infos := by
  obtain ⟨kind, ⟨mode, entries, hmode, hascending, handle⟩⟩ := s
  obtain rfl : kind = .infos := hkind
  obtain rfl : entries = infos.map .info := hentries
  have hsorted : (infos.map Item.info).Pairwise (fun i j => Entry.key i < Entry.key j) := hascending
  have hinfos := List.pairwise_map.1 hsorted
  exact ⟨⟨mode, infos, fun i hi => hmode _ (List.mem_map_of_mem hi), hinfos, handle⟩, rfl, rfl⟩

theorem exists_of_infos (hcan : ∀ i ∈ infos, i.name.CanTake settings mode)
    (hdistinct : (infos.map (fun i => mode.fold i.name.value)).Nodup) :
    ∃ s, of settings .infos mode (infos.map .info) = .ok s ∧ s.Holds mode infos := by
  have hkey : ∀ i : Info, Entry.key (Item.info (i.inMode mode)) = mode.fold i.name.value := by
    intro i
    obtain ⟨hvalue, hmode, -⟩ := i.inMode_eq mode
    show (i.inMode mode).name.mode.fold (i.inMode mode).name.value = _
    rw [hvalue, hmode]
  have hmapM : (infos.map Item.info).mapM (Entry.withMode settings mode) =
      .ok ((infos.map (Info.inMode mode)).map Item.info) := by
    rw [List.mapM_map, List.map_map]
    exact mapM_eq_ok_map fun i hi => Item.withMode_info (hcan i hi)
  have hdiffer : (infos.map (Info.inMode mode)).Pairwise
      (fun i j => Entry.key (Item.info i) ≠ Entry.key (Item.info j)) := by
    refine List.pairwise_map.2 ((List.pairwise_map.1 hdistinct).imp ?_)
    intro i j hne
    rwa [hkey, hkey]
  obtain ⟨t, ht, hmode, hentries⟩ := NamedSet.exists_of hmapM (List.pairwise_map.2 hdiffer)
  rw [sortDistinctBy_map] at hentries
  refine ⟨⟨.infos, t⟩, ?_, rfl, hmode, _, hentries, ?_⟩
  · rw [of, ht]
    rfl
  · exact sortDistinctBy_perm hdiffer

end ItemSet

end FunctionCatalog
