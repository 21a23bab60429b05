import FunctionCatalog.Proofs.ItemSet.Infos
import FunctionCatalog.Proofs.NamedSet.Equality
import FunctionCatalog.Proofs.Value.Order

/-
  FunctionCatalog: catalogs do not depend on the order in which they are built.
  An info that comes into a catalog is compared with the first one of its name only. In the mode of
  the catalog equality is transitive, so that shows every name under which two tokens meet
  (`mem_map_clashing_iff`), and no other one. Infos that are built in another order are refused for
  the same names or make an equal catalog (`of_infos_outcome`). Before all that stands whether their
  names can be brought into the mode at all.
-/

namespace FunctionCatalog

variable {settings : Settings} {mode : CaseMode} {infos infos' : List Info} {i j : Info}
  {key : String}

/-! ## Names under which tokens meet -/

/-- Two of the infos have the folded name and different tokens. -/
def Disputed (mode : CaseMode) (infos : List Info) (key : String) : Prop :=
  ∃ i ∈ infos, ∃ j ∈ infos, mode.fold i.name.value = key ∧ mode.fold j.name.value = key ∧
    i.token ≠ j.token

theorem Disputed.of_perm (hperm : infos.Perm infos') (h : Disputed mode infos key) :
    Disputed mode infos' key := by
  obtain ⟨i, hi, j, hj, hrest⟩ := h
  exact ⟨i, hperm.subset hi, j, hperm.subset hj, hrest⟩

namespace NamedSet

/-- The infos in the mode. -/
def converted (mode : CaseMode) (infos : List Info) : List Item :=
  (infos.map (Info.inMode mode)).map .info

theorem mem_converted {e : Item} :
    e ∈ converted mode infos ↔ ∃ i ∈ infos, e = .info (i.inMode mode) := by
  rw [converted, List.map_map, List.mem_map]
  exact exists_congr fun i => and_congr_right fun _ => eq_comm

/-- The first info of a name is in its place unless another one differs from it. So where two differ
from each other, one of them differs from the first. -/
theorem mem_map_clashing_iff :
    key ∈ (clashing [] (converted mode infos)).map Entry.key ↔ Disputed mode infos key := by
  constructor
  · intro h
    obtain ⟨e, he, rfl⟩ := List.mem_map.1 h
    obtain ⟨hmem, x, hx, hkey, hdiffer⟩ := exists_of_mem_clashing he
    obtain ⟨j, hj, rfl⟩ := mem_converted.1 hmem
    obtain ⟨i, hi, rfl⟩ := mem_converted.1 hx
    rw [Info.key_inMode, Info.key_inMode] at hkey
    rw [Info.key_inMode]
    refine ⟨i, hi, j, hj, hkey, rfl, fun htoken => ?_⟩
    rw [same_inMode hkey htoken] at hdiffer
    cases hdiffer
  · rintro ⟨i, hi, j, hj, hikey, hjkey, hne⟩
    cases hfirst : (converted mode infos).find? (fun e => Entry.key e == key) with
    | none =>
      have hnone := List.find?_eq_none.1 hfirst _ (mem_converted.2 ⟨i, hi, rfl⟩)
      rw [Info.key_inMode, hikey, beq_self_eq_true] at hnone
      exact absurd rfl hnone
    | some f =>
      obtain ⟨k, -, rfl⟩ := mem_converted.1 (List.mem_of_find?_eq_some hfirst)
      -- an info of the name clashes unless it has the token of the first one
      have hclash : ∀ l ∈ infos, mode.fold l.name.value = key → k.token ≠ l.token →
          key ∈ (clashing [] (converted mode infos)).map Entry.key := by
        intro l hl hkey htoken
        have hlkey : Entry.key (Item.info (l.inMode mode)) = key := (l.key_inMode mode).trans hkey
        refine List.mem_map.2 ⟨.info (l.inMode mode), List.mem_filter.2
          ⟨mem_converted.2 ⟨l, hl, rfl⟩, ?_⟩, hlkey⟩
        rw [isClash, List.nil_append, hlkey, hfirst, Option.any_some, Bool.not_eq_true',
          ← Bool.not_eq_true]
        intro hsame
        have htokens := (ItemSet.same_info_iff.1 hsame).2
        rw [(k.inMode_eq mode).2.2, (l.inMode_eq mode).2.2] at htokens
        exact htoken htokens
      by_cases htoken : k.token = i.token
      · exact hclash j hj hjkey (htoken ▸ hne)
      · exact hclash i hi hikey htoken

/-- What infos come to that can be brought into the mode. -/
theorem exists_of_infos_eq (hcan : ∀ i ∈ infos, i.name.CanTake settings mode) :
    ∃ u : NamedSet Item, u.mode = mode ∧
      u.entries = sortDistinctBy Entry.key (converted mode infos) ∧
      of settings mode (infos.map .info) =
        if clashing [] (converted mode infos) = [] then .ok u
        else .error (.duplicateNames
          (sortDistinctBy Name.key ((clashing [] (converted mode infos)).map Item.name))) := by
  have hnil : AscendingBy Entry.key ([] : List Item) := List.Pairwise.nil
  have hmode : ∀ e ∈ [] ++ converted mode infos, (Entry.name e).mode = mode := fun e he => by
    obtain ⟨i, -, rfl⟩ := mem_converted.1 he
    exact (i.inMode_eq mode).2.1
  obtain ⟨u, humode, hentries, -, hof⟩ := exists_of_append settings hnil hmode fun e he => by
    obtain ⟨i, -, rfl⟩ := mem_converted.1 he
    exact Item.same_refl rfl
  refine ⟨u, humode, hentries, Eq.trans ?_ hof⟩
  refine of_congr ?_
  rw [List.nil_append, converted, List.map_map, List.map_map, List.map_map]
  refine List.map_congr_left fun i hi => (Item.withMode_info (hcan i hi)).trans ?_
  exact (SteadyEntry.withMode_of_mode (i.inMode_eq mode).2.1).symm

end NamedSet

/-! ## Catalogs -/

/-- The names are those of the mode under which two tokens meet, ascending and each once. -/
structure NamesDisputed (mode : CaseMode) (infos : List Info) (names : List Name) : Prop where
  inMode : ∀ n ∈ names, n.mode = mode
  ascending : names.Pairwise (fun m n => m.before n = true)
  disputed : ∀ key, (∃ n ∈ names, n.key = key) ↔ Disputed mode infos key

/-- The catalog has one entry for each folded name of the infos: the first info of the name, as it
is written, with the token of all infos of the name. -/
structure BuiltOf (mode : CaseMode) (infos : List Info) (t : InfoSet) : Prop where
  inMode : t.mode = mode
  ascending : t.entries.Pairwise (fun d e => d.name.before e.name = true)
  names : ∀ key, (∃ e ∈ t.entries, e.name.key = key) ↔ ∃ i ∈ infos, mode.fold i.name.value = key
  first : ∀ e ∈ t.entries, ∃ i, infos.find? (fun i => mode.fold i.name.value == e.name.key) =
    some i ∧ e = i.inMode mode ∧ e.name.value = i.name.value
  token : ∀ e ∈ t.entries, ∀ i ∈ infos, mode.fold i.name.value = e.name.key → i.token = e.token

/-- Two outcomes are alike: both are refusals of a name that does not fit, both are refusals of
equal names, or both are equal catalogs. -/
inductive AlikeOutcome : Except Failure ItemSet → Except Failure ItemSet → Prop
  | unfit (m n : NameError) :
    AlikeOutcome (.error (.rejection (.name m))) (.error (.rejection (.name n)))
  | disputed {ms ns : List Name} (h : List.Forall₂ (fun m n => m.same n = true) ms ns) :
    AlikeOutcome (.error (.rejection (.duplicateNames ms)))
      (.error (.rejection (.duplicateNames ns)))
  | built {s t : InfoSet} (h : s.same t = true) : AlikeOutcome (.ok s.asItems) (.ok t.asItems)

/-- What is ascending by the keys of names of a mode is so by the names. -/
theorem pairwise_before_iff {α : Type} {f : α → Name} {xs : List α}
    (hmode : ∀ x ∈ xs, (f x).mode = mode) :
    xs.Pairwise (fun x y => (f x).before (f y) = true) ↔ AscendingBy (fun x => (f x).key) xs :=
  List.Pairwise.iff_of_mem fun hx hy =>
    Name.before_iff_key ((hmode _ hx).trans (hmode _ hy).symm)

theorem NamesDisputed.ascendingBy {names : List Name} (h : NamesDisputed mode infos names) :
    AscendingBy Name.key names :=
  (pairwise_before_iff h.inMode).1 h.ascending

theorem NamesDisputed.of_clashing : NamesDisputed mode infos (sortDistinctBy Name.key
    ((NamedSet.clashing [] (NamedSet.converted mode infos)).map Item.name)) := by
  have hmode : ∀ n ∈ sortDistinctBy Name.key
      ((NamedSet.clashing [] (NamedSet.converted mode infos)).map Item.name), n.mode = mode := by
    intro n hn
    obtain ⟨e, he, rfl⟩ := List.mem_map.1 (mem_of_mem_sortDistinctBy hn)
    obtain ⟨i, -, rfl⟩ := NamedSet.mem_converted.1 (NamedSet.exists_of_mem_clashing he).1
    exact (i.inMode_eq mode).2.1
  refine ⟨hmode, (pairwise_before_iff hmode).2 (ascendingBy_sortDistinctBy Name.key _),
    fun key => ?_⟩
  rw [← List.mem_map, mem_map_sortDistinctBy, List.map_map]
  exact NamedSet.mem_map_clashing_iff

theorem BuiltOf.of_entries {t : InfoSet} (hmode : t.mode = mode)
    (hentries : t.entries = sortDistinctBy Entry.key (infos.map (Info.inMode mode)))
    (hnone : ∀ key, ¬ Disputed mode infos key) : BuiltOf mode infos t := by
  have hkey : ∀ i : Info, Entry.key (i.inMode mode) = mode.fold i.name.value := fun i =>
    i.key_inMode mode
  have hmodes : ∀ e ∈ t.entries, e.name.mode = mode := fun e he =>
    (t.mode_of_mem e he).trans hmode
  have hfirst : ∀ e ∈ t.entries, ∃ i,
      infos.find? (fun i => mode.fold i.name.value == e.name.key) = some i ∧ e = i.inMode mode := by
    intro e he
    have hfind : t.find? (Entry.key e) = some e := NamedSet.find?_eq_some_iff.2 ⟨he, rfl⟩
    rw [NamedSet.find?, hentries, sortDistinctBy, find?_foldl_placeBy List.Pairwise.nil,
      List.nil_append, List.find?_map] at hfind
    obtain ⟨i, hi, rfl⟩ := Option.map_eq_some_iff.1 hfind
    refine ⟨i, ?_, rfl⟩
    simp only [Function.comp_def, hkey] at hi
    rw [show (i.inMode mode).name.key = _ from hkey i]
    exact hi
  refine ⟨hmode, (pairwise_before_iff hmodes).2 t.ascending, fun key => ?_, fun e he => ?_,
    fun e he i hi hikey => ?_⟩
  · have hkeys : key ∈ t.entries.map Entry.key ↔
        key ∈ (infos.map (Info.inMode mode)).map Entry.key := by
      rw [hentries, mem_map_sortDistinctBy]
    rw [List.mem_map, List.mem_map] at hkeys
    refine hkeys.trans ⟨?_, ?_⟩
    · rintro ⟨_, he, rfl⟩
      obtain ⟨i, hi, rfl⟩ := List.mem_map.1 he
      exact ⟨i, hi, (hkey i).symm⟩
    · rintro ⟨i, hi, rfl⟩
      exact ⟨_, List.mem_map_of_mem hi, hkey i⟩
  · obtain ⟨i, hi, rfl⟩ := hfirst e he
    exact ⟨i, hi, rfl, (i.inMode_eq mode).1⟩
  · obtain ⟨f, hf, rfl⟩ := hfirst e he
    rw [(f.inMode_eq mode).2.2]
    refine Classical.byContradiction fun hne => hnone _ ⟨i, hi, f, List.mem_of_find?_eq_some hf,
      hikey, ?_, hne⟩
    exact beq_iff_eq.1 (List.find?_some hf :)

/-! ## Another order -/

theorem disputed_iff_of_perm (hperm : infos.Perm infos') :
    Disputed mode infos key ↔ Disputed mode infos' key :=
  ⟨.of_perm hperm, .of_perm hperm.symm⟩

/-- The names under which tokens meet are the same ones in any order of the infos. -/
theorem NamesDisputed.same_of_perm {ms ns : List Name} (hperm : infos.Perm infos')
    (hms : NamesDisputed mode infos ms) (hns : NamesDisputed mode infos' ns) :
    List.Forall₂ (fun m n => m.same n = true) ms ns := by
  have hkeys : ms.map Name.key = ns.map Name.key :=
    hms.ascendingBy.map_eq_of_mem_iff hns.ascendingBy fun key => by
      rw [List.mem_map, List.mem_map, hms.disputed, hns.disputed]
      exact disputed_iff_of_perm hperm
  exact forall₂_of_map_eq hkeys fun m hm n hn =>
    (Name.same_iff_key ((hms.inMode m hm).trans (hns.inMode n hn).symm)).2

/-- Catalogs of the same infos have the same names and, under each of them, the same token. -/
theorem BuiltOf.same_of_perm {s t : InfoSet} (hperm : infos.Perm infos')
    (hs : BuiltOf mode infos s) (ht : BuiltOf mode infos' t) : s.same t = true := by
  refine NamedSet.same_of_keys (hs.inMode.trans ht.inMode.symm) (fun key => ?_)
    fun d hd e he hkey => ?_
  · rw [List.mem_map, List.mem_map]
    refine (hs.names key).trans (Iff.trans ?_ (ht.names key).symm)
    exact exists_congr fun i => and_congr_left' hperm.mem_iff
  · obtain ⟨i, hi, hdi, -⟩ := hs.first d hd
    have hmode : d.name.mode = e.name.mode :=
      ((s.mode_of_mem d hd).trans hs.inMode).trans ((t.mode_of_mem e he).trans ht.inMode).symm
    have hikey : mode.fold i.name.value = d.name.key := beq_iff_eq.1 (List.find?_some hi :)
    have htoken : i.token = e.token :=
      ht.token e he i (hperm.subset (List.mem_of_find?_eq_some hi)) (hikey.trans hkey)
    have hown : d.token = i.token := by rw [hdi, (i.inMode_eq mode).2.2]
    show (d.name.same e.name && d.token == e.token) = true
    rw [(Name.same_iff_key hmode).2 hkey, hown, htoken, beq_self_eq_true, Bool.and_self]

/-! ## Outcomes -/

namespace ItemSet

/-- Where all names fit, infos are refused for the names under which tokens meet, and make a catalog
where there are none. -/
theorem of_infos_cases (hcan : ∀ i ∈ infos, i.name.CanTake settings mode) :
    ((∃ key, Disputed mode infos key) ∧ ∃ names, NamesDisputed mode infos names ∧
      of settings .infos mode (infos.map .info) = .error (.rejection (.duplicateNames names))) ∨
    ((¬ ∃ key, Disputed mode infos key) ∧ ∃ t : InfoSet, BuiltOf mode infos t ∧
      of settings .infos mode (infos.map .info) = .ok t.asItems) := by
  obtain ⟨u, humode, hentries, hof⟩ := NamedSet.exists_of_infos_eq hcan
  by_cases hclash : NamedSet.clashing [] (NamedSet.converted mode infos) = []
  · have hnone : ∀ key, ¬ Disputed mode infos key := fun key => by
      rw [← NamedSet.mem_map_clashing_iff, hclash]
      exact List.not_mem_nil
    rw [if_pos hclash] at hof
    rw [NamedSet.converted, sortDistinctBy_map] at hentries
    obtain ⟨t, ht, hshown⟩ := exists_asItems (s := ⟨.infos, u⟩) rfl hentries
    have htmode : t.mode = mode := (congrArg ItemSet.mode ht.symm).trans humode
    refine .inr ⟨not_exists.2 hnone, t, .of_entries htmode hshown hnone, ?_⟩
    rw [of, hof, ← ht]
    rfl
  · obtain ⟨e, he⟩ := List.exists_mem_of_ne_nil _ hclash
    rw [if_neg hclash] at hof
    refine .inl ⟨⟨Entry.key e, NamedSet.mem_map_clashing_iff.1 (List.mem_map_of_mem he)⟩, _,
      .of_clashing, ?_⟩
    rw [of, hof]
    rfl

theorem alikeOutcome_of_perm (settings : Settings) (mode : CaseMode) (hperm : infos.Perm infos') :
    AlikeOutcome (of settings .infos mode (infos.map .info))
      (of settings .infos mode (infos'.map .info)) := by
  have hfits : firstUnfit? settings mode infos = none ↔
      firstUnfit? settings mode infos' = none := by
    simp only [firstUnfit?_eq_none_iff, hperm.mem_iff]
  cases hunfit : firstUnfit? settings mode infos with
  | some i =>
    obtain ⟨j, hunfit'⟩ := Option.ne_none_iff_exists'.1 fun hnone => by
      rw [hfits.2 hnone] at hunfit
      cases hunfit
    rw [of_infos_of_firstUnfit? hunfit, of_infos_of_firstUnfit? hunfit']
    exact .unfit _ _
  | none =>
    have hunfit' := hfits.1 hunfit
    rw [firstUnfit?_eq_none_iff] at hunfit hunfit'
    have hsome : (∃ key, Disputed mode infos key) ↔ ∃ key, Disputed mode infos' key :=
      exists_congr fun key => disputed_iff_of_perm hperm
    rcases of_infos_cases hunfit with ⟨hdisputed, ms, hms, hof⟩ | ⟨hnone, s, hs, hof⟩
    · rcases of_infos_cases hunfit' with ⟨-, ns, hns, hof'⟩ | ⟨hnone, -⟩
      · rw [hof, hof']
        exact .disputed (hms.same_of_perm hperm hns)
      · exact absurd (hsome.1 hdisputed) hnone
    · rcases of_infos_cases hunfit' with ⟨hdisputed, -⟩ | ⟨-, t, ht, hof'⟩
      · exact absurd (hsome.2 hdisputed) hnone
      · rw [hof, hof']
        exact .built (hs.same_of_perm hperm ht)

/-- What comes of infos of any modes. If some of their names cannot be brought into the mode of the
catalog, they are refused for the first of these. Otherwise they are refused for duplicates exactly
if two of them have names that are equal under the mode and different tokens, and then for just
these names; where there are none they make a catalog with the first info of each name. In any other
order the outcome is alike. -/
theorem of_infos_outcome (settings : Settings) (mode : CaseMode) (infos : List Info) :
    (∀ i, firstUnfit? settings mode infos = some i →
      of settings .infos mode (infos.map .info) =
        .error (.rejection (.name (i.name.lengthError settings)))) ∧
    ((∀ i ∈ infos, i.name.CanTake settings mode) →
      ((∃ names, of settings .infos mode (infos.map .info) =
          .error (.rejection (.duplicateNames names))) ↔ ∃ key, Disputed mode infos key) ∧
      (∀ names, of settings .infos mode (infos.map .info) =
          .error (.rejection (.duplicateNames names)) → NamesDisputed mode infos names) ∧
      ((¬ ∃ key, Disputed mode infos key) → ∃ t : InfoSet,
        of settings .infos mode (infos.map .info) = .ok t.asItems ∧ BuiltOf mode infos t)) ∧
    ∀ infos', infos.Perm infos' →
      AlikeOutcome (of settings .infos mode (infos.map .info))
        (of settings .infos mode (infos'.map .info)) := by
  refine ⟨fun i => of_infos_of_firstUnfit?, fun hcan => ?_,
    fun infos' => alikeOutcome_of_perm settings mode⟩
  rcases of_infos_cases hcan with ⟨hdisputed, names, hnames, hof⟩ | ⟨hnone, t, ht, hof⟩
  · rw [hof]
    refine ⟨iff_of_true ⟨names, rfl⟩ hdisputed, fun names' heq => ?_, fun hnone => ?_⟩
    · cases heq
      exact hnames
    · exact absurd hdisputed hnone
  · rw [hof]
    refine ⟨iff_of_false (by rintro ⟨names, ⟨⟩⟩) hnone, ?_, fun _ => ⟨t, rfl, ht⟩⟩
    rintro names ⟨⟩

/-- The infos `abs` and `ABS`, and `ABS` with another token. -/
def absVariants : List Info :=
  [lowerAbs, upperAbs .sensitive,
    { upperAbs .sensitive with token := "v", isToken_token := by decide }]

/-- Where case is ignored they are refused for the name `abs`, in this order and in the other. -/
theorem of_infos_outcome_absVariants :
    (∀ i ∈ absVariants, i.name.CanTake {} .insensitive) ∧
      (∃ names, of {} .infos .insensitive (absVariants.map .info) =
        .error (.rejection (.duplicateNames names)) ∧
          NamesDisputed .insensitive absVariants names) ∧
      AlikeOutcome (of {} .infos .insensitive (absVariants.map .info))
        (of {} .infos .insensitive (absVariants.reverse.map .info)) := by
  obtain ⟨-, hfit, hperm⟩ := of_infos_outcome {} .insensitive absVariants
  have hcan : ∀ i ∈ absVariants, i.name.CanTake {} .insensitive := by decide +kernel
  obtain ⟨hiff, hnames, -⟩ := hfit hcan
  have hdisputed : Disputed .insensitive absVariants "abs" :=
    ⟨lowerAbs, by simp [absVariants], _, List.mem_of_getLast? (Eq.refl _), by decide +kernel,
      by decide +kernel, by decide⟩
  obtain ⟨names, hof⟩ := hiff.2 ⟨_, hdisputed⟩
  exact ⟨hcan, ⟨names, hof, hnames names hof⟩, hperm _ absVariants.reverse_perm.symm⟩

/-- Settings under which a name has three characters at most. -/
def upToThree : Settings := { nameLimit := 3 }

/-- The sensitive name `abcd` with a token. -/
def longInfo (token : String) (h : isToken infoReserved token.toList = true) : Info where
  name := .spelled "abcd" .sensitive (Eq.refl true)
  token := token
  isToken_token := h

/-- Two infos have one name and different tokens, but the name is longer than is allowed by now, and
that is what they are refused for. -/
theorem disputed_name_unfit :
    Disputed .insensitive [longInfo "u" (by decide), longInfo "v" (by decide)] "abcd" ∧
      of upToThree .infos .insensitive
          ([longInfo "u" (by decide), longInfo "v" (by decide)].map .info) =
        .error (.rejection (.name ⟨"abcd", 3, .tooLong 4 3⟩)) ∧
      ¬ ∃ names, of upToThree .infos .insensitive
          ([longInfo "u" (by decide), longInfo "v" (by decide)].map .info) =
        .error (.rejection (.duplicateNames names)) := by
  have hrefused : of upToThree .infos .insensitive
      ([longInfo "u" (by decide), longInfo "v" (by decide)].map .info) =
        .error (.rejection (.name ⟨"abcd", 3, .tooLong 4 3⟩)) := rfl
  refine ⟨⟨_, List.mem_cons_self, _, List.mem_cons_of_mem _ List.mem_cons_self, by decide +kernel,
    by decide +kernel, by decide⟩, hrefused, ?_⟩
  rintro ⟨names, hnames⟩
  cases hrefused.symm.trans hnames

end ItemSet

end FunctionCatalog
