import FunctionCatalog.Proofs.Provider.Advertising

/-
  FunctionCatalog: alias sets over catalogs of their own mode.
  Where an alias set and a catalog tell the same names apart, each alias shows under its own folded
  name. So what shows is in order and cannot clash, however the names of the aliases, of their
  targets and of the catalog overlap, and a name is looked up in what is merged by looking the alias
  up and taking what this shows (`get?_of_shown`).
-/

namespace FunctionCatalog.AliasSet
open Entry

variable {settings : Settings} {aliases : AliasSet} {catalog t : InfoSet} {a : Alias} {i : Info}

/-! ## What an alias shows -/

/-- What an alias shows stands under the name of the alias. -/
theorem key_of_shownInfo (hmode : aliases.mode = catalog.mode) (ha : a ∈ aliases.entries)
    (h : a.shownInfo? settings catalog = some i) : i.name.mode = aliases.mode ∧ key i = key a := by
  have hname : a.name.mode = aliases.mode := aliases.mode_of_mem a ha
  unfold Alias.shownInfo? at h
  split at h
  · -- a forwarded name is folded by the catalog as by the set
    have hi : i.name.mode = aliases.mode :=
      (catalog.mode_of_mem i (List.mem_of_find?_eq_some h)).trans hmode.symm
    refine ⟨hi, ?_⟩
    show i.name.mode.fold i.name.value = a.name.mode.fold a.name.value
    rw [hi, hname]
    exact NamedSet.fold_of_get hmode.symm h
  · unfold Info.make at h
    split at h
    · obtain rfl := Option.some.inj h
      exact ⟨hname, rfl⟩
    · cases h

/-- An alias shows something unless it forwards a name that the catalog does not have. -/
theorem isSome_shownInfo (catalog : InfoSet) (hpre : settings.PrefixFits) (a : Alias) :
    (a.shownInfo? settings catalog).isSome = true ↔
      a.target.isSome = true ∨ catalog.containsName a.name.value = true := by
  cases hs : a.target with
  | none =>
    have hshown : a.shownInfo? settings catalog = catalog.get? a.name.value := by
      unfold Alias.shownInfo?
      rw [hs]
    rw [hshown]
    exact (or_iff_right Bool.false_ne_true).symm
  | some s =>
    obtain ⟨i, hi, -⟩ := a.exists_shownInfo catalog hpre hs
    rw [hi]
    exact iff_of_true rfl (.inl rfl)

/-! ## What is merged -/

theorem ascending_shown (settings : Settings) (hmode : aliases.mode = catalog.mode) :
    AscendingBy key (aliases.shown settings catalog) := by
  refine List.pairwise_filterMap.2 ?_
  refine List.Pairwise.imp_of_mem (fun {a b} ha hb hlt i hi j hj => ?_) aliases.ascending
  rw [(key_of_shownInfo hmode ha hi).2, (key_of_shownInfo hmode hb hj).2]
  exact hlt

theorem mode_of_mem_shown (hmode : aliases.mode = catalog.mode)
    (hi : i ∈ aliases.shown settings catalog) : i.name.mode = aliases.mode := by
  obtain ⟨a, ha, hshown⟩ := List.mem_filterMap.1 hi
  exact (key_of_shownInfo hmode ha hshown).1

/-- What shows is merged as it is. -/
theorem exists_merge (hpre : settings.PrefixFits) (hmode : aliases.mode = catalog.mode) :
    ∃ t : InfoSet, aliases.asItems.merge settings catalog.asItems.advertised? = .ok t.asItems ∧
      t.mode = aliases.mode ∧ t.entries = aliases.shown settings catalog := by
  obtain ⟨t, ht, htmode, hentries⟩ := NamedSet.exists_catalog_of settings
    (fun i hi => mode_of_mem_shown hmode hi) (ascending_shown settings hmode)
  exact ⟨t, (merge_eq hpre).trans ht, htmode, hentries⟩

/-- What stands under a name is what the alias of the name shows. -/
theorem get?_of_shown (hmode : aliases.mode = catalog.mode) (htmode : t.mode = aliases.mode)
    (ht : t.entries = aliases.shown settings catalog) (text : String) :
    t.get? text = (aliases.get? text).bind (Alias.shownInfo? settings catalog) := by
  have hfold : t.fold text = aliases.fold text := congrArg (CaseMode.fold · text) htmode
  refine Option.ext fun i => ?_
  show t.find? (t.fold text) = some i ↔ _
  rw [NamedSet.find?_eq_some_iff, ht, hfold, Option.bind_eq_some_iff]
  constructor
  · rintro ⟨hi, hkey⟩
    obtain ⟨a, ha, hshown⟩ := List.mem_filterMap.1 hi
    refine ⟨a, NamedSet.find?_eq_some_iff.2 ⟨ha, ?_⟩, hshown⟩
    rw [← (key_of_shownInfo hmode ha hshown).2, hkey]
  · rintro ⟨a, hget, hshown⟩
    obtain ⟨ha, hkey⟩ := NamedSet.find?_eq_some_iff.1 hget
    exact ⟨List.mem_filterMap.2 ⟨a, ha, hshown⟩,
      (key_of_shownInfo hmode ha hshown).2.trans hkey⟩

/-- An alias set can be merged with any catalog of its mode, and what is merged has that mode. It
has the names of the aliases with a target, and those forwarded names that the catalog has. Under a
forwarded name stands what the catalog has there, and under any other alias its own name with its
own token, else that of its target in the catalog, else the prefix with its name. The name of a
target is not there unless the set has an entry of that name. -/
theorem merge_same_mode (hpre : settings.PrefixFits) (hmode : aliases.mode = catalog.mode) :
    ∃ t : InfoSet, aliases.asItems.merge settings catalog.asItems.advertised? = .ok t.asItems ∧
      t.mode = aliases.mode ∧
      (∀ text, t.containsName text = true ↔ ∃ a, aliases.get? text = some a ∧
        (a.target.isSome = true ∨ catalog.containsName text = true)) ∧
      (∀ a ∈ aliases.entries, a.target = none →
        t.get? a.name.value = catalog.get? a.name.value) ∧
      (∀ a ∈ aliases.entries, ∀ s, a.target = some s →
        ∃ i, t.get? a.name.value = some i ∧ i.name = a.name ∧
          i.token = a.token.getD (match catalog.get? s.name.value with
            | some j => j.token
            | none => settings.tokenPrefix ++ a.name.value)) ∧
      (∀ a ∈ aliases.entries, ∀ s, a.target = some s →
        aliases.containsName s.name.value = false → t.containsName s.name.value = false) := by
  obtain ⟨t, hmerge, htmode, hshown⟩ := exists_merge hpre hmode
  have hget := get?_of_shown hmode htmode hshown
  have hown : ∀ a ∈ aliases.entries,
      t.get? a.name.value = a.shownInfo? settings catalog := fun a ha => by
    rw [hget, get?_of_mem ha rfl]
    rfl
  refine ⟨t, hmerge, htmode, fun text => ?_, fun a ha htarget => ?_, fun a ha s hs => ?_,
    fun a _ s _ habsent => ?_⟩
  · rw [NamedSet.containsName, hget]
    cases haliases : aliases.get? text with
    | none =>
      refine iff_of_false Bool.false_ne_true ?_
      rintro ⟨a, ha, -⟩
      cases ha
    | some a =>
      -- the catalog folds the name of the alias like the text that finds it
      have hfold : catalog.fold a.name.value = catalog.fold text :=
        NamedSet.fold_of_get hmode haliases
      have hsame : catalog.containsName a.name.value = catalog.containsName text := by
        rw [NamedSet.containsName, NamedSet.containsName, NamedSet.get?, NamedSet.get?, hfold]
      rw [Option.bind_some, isSome_shownInfo catalog hpre, hsame]
      refine ⟨fun h => ⟨a, rfl, h⟩, ?_⟩
      rintro ⟨b, hb, h⟩
      exact Option.some.inj hb ▸ h
  · rw [hown a ha]
    unfold Alias.shownInfo?
    rw [htarget]
  · obtain ⟨i, hi, -, hname, htoken⟩ := a.exists_shownInfo catalog hpre hs
    exact ⟨i, (hown a ha).trans hi, hname, htoken⟩
  · rw [NamedSet.containsName, Option.isSome_eq_false_iff, Option.isNone_iff_eq_none] at habsent
    rw [NamedSet.containsName, hget, habsent]
    rfl

/-- Two names of a catalog, each an alias of the other, an alias of a name that is not there, and
one that is forwarded though it is not there. -/
def crossed : AliasSet :=
  (parse {} .sensitive "abs max, cut gone, max abs, min").toOption.getD (NamedSet.empty .sensitive)

def extremes : InfoSet :=
  Aggregate.pairCatalog .sensitive
    (Aggregate.letter .sensitive "abs" "u/abs" (Eq.refl true) (Eq.refl true))
    (Aggregate.letter .sensitive "max" "u/max" (Eq.refl true) (Eq.refl true)) rfl rfl (by decide)

theorem merge_same_mode_crossed :
    Settings.PrefixFits {} ∧ crossed.mode = extremes.mode ∧
      ∃ t : InfoSet, crossed.asItems.merge {} extremes.asItems.advertised? = .ok t.asItems ∧
        t.containsName "abs" = true ∧ t.containsName "cut" = true ∧
          t.containsName "gone" = false ∧ t.containsName "min" = false := by
  have hpre : Settings.PrefixFits {} := by
    decide
  have hmode : crossed.mode = extremes.mode := by
    decide +kernel
  obtain ⟨t, hmerge, -, hnames, -⟩ := merge_same_mode hpre hmode
  have hshows : ∀ text, t.containsName text =
      ((crossed.get? text).any fun a =>
        a.target.isSome || extremes.containsName text) := fun text => by
    rw [Bool.eq_iff_iff, hnames, Option.any_eq_true]
    simp only [Bool.or_eq_true]
  refine ⟨hpre, hmode, t, hmerge, ?_, ?_, ?_, ?_⟩ <;> rw [hshows] <;> decide +kernel

end FunctionCatalog.AliasSet
