import FunctionCatalog.Proofs.Provider.Originals
import FunctionCatalog.Proofs.Provider.Relaying
import Mathlib.Data.Set.Function
import Mathlib.Logic.Equiv.Basic

/-
  FunctionCatalog: merged names lose and duplicate nothing.
  The merging view works its catalog out by renaming entries and looks names up in a table that is
  filled beside it. Where the tokens of the wrapped catalog differ, an entry of the view belongs to
  the entry with its token, and both go by one name (`bijOn_origin`). A view can be made if the new
  names can take the mode of the provider and stay apart there (`exists_make_iff`).
-/

namespace FunctionCatalog

variable {σ : Type} {settings : Settings} {inner : Provider σ} {catalog renames shown : InfoSet}
  {mode : CaseMode} {i j e : Info}

namespace MergedView
open Entry

/-! ## New names -/

/-- The mode can be given to the new name of every entry. -/
def TakesNames (settings : Settings) (mode : CaseMode) (catalog renames : InfoSet) : Prop :=
  ∀ i ∈ catalog.entries, (newInfo renames i).name.CanTake settings mode

/-- No two entries get names that are equal under the mode. -/
def Apart (mode : CaseMode) (catalog renames : InfoSet) : Prop :=
  ∀ i ∈ catalog.entries, ∀ j ∈ catalog.entries,
    mode.fold (newInfo renames i).name.value = mode.fold (newInfo renames j).name.value → i = j

instance (settings : Settings) (mode : CaseMode) (catalog renames : InfoSet) :
    Decidable (TakesNames settings mode catalog renames) :=
  inferInstanceAs (Decidable (∀ i ∈ catalog.entries, _))

instance (mode : CaseMode) (catalog renames : InfoSet) : Decidable (Apart mode catalog renames) :=
  inferInstanceAs (Decidable (∀ i ∈ catalog.entries, ∀ j ∈ catalog.entries, _ → i = j))

theorem eq_of_token (hdistinct : (catalog.entries.map (·.token)).Nodup)
    (hi : i ∈ catalog.entries) (hj : j ∈ catalog.entries) (h : i.token = j.token) : i = j :=
  List.inj_on_of_nodup_map hdistinct hi hj h

/-- Names of the mode of the provider can always be taken. -/
theorem takesNames_of_mode (settings : Settings) (hmode : catalog.mode = mode)
    (hrenames : renames.mode = mode) : TakesNames settings mode catalog renames := by
  intro i hi
  left
  rw [newInfo]
  cases hfind : renames.entries.find? (fun r => r.token == i.token) with
  | none => exact (catalog.mode_of_mem i hi).trans hmode
  | some r => exact (renames.mode_of_mem r (List.mem_of_find?_eq_some hfind)).trans hrenames

theorem takesNames_iff : TakesNames settings mode catalog renames ↔
    ∀ i ∈ catalog.entries.map (newInfo renames), i.name.CanTake settings mode := by
  rw [List.forall_mem_map]
  exact Iff.rfl

/-- New names stay apart if entries with different tokens do. -/
theorem agree_iff_apart (hdistinct : (catalog.entries.map (·.token)).Nodup) :
    NamedSet.Agree mode (catalog.entries.map (newInfo renames)) ↔
      Apart mode catalog renames := by
  constructor
  · intro h i hi j hj hname
    have htoken := h _ (List.mem_map_of_mem hi) _ (List.mem_map_of_mem hj) hname
    rw [token_newInfo, token_newInfo] at htoken
    exact eq_of_token hdistinct hi hj htoken
  · intro h _ hi' _ hj' hname
    obtain ⟨i, hi, rfl⟩ := List.mem_map.1 hi'
    obtain ⟨j, hj, rfl⟩ := List.mem_map.1 hj'
    rw [h i hi j hj hname]

theorem key_eq_fold (hmode : catalog.mode = mode) (hi : i ∈ catalog.entries) :
    key i = mode.fold i.name.value := by
  rw [← hmode, ← catalog.mode_of_mem i hi]
  rfl

/-- Where two entries swap their names and all others keep theirs, all stay apart. -/
theorem apart_of_swap (hmode : catalog.mode = mode) (hi : i ∈ catalog.entries)
    (hj : j ∈ catalog.entries)
    (hij : mode.fold (newInfo renames i).name.value = mode.fold j.name.value)
    (hji : mode.fold (newInfo renames j).name.value = mode.fold i.name.value)
    (hothers : ∀ k ∈ catalog.entries, k ≠ i → k ≠ j →
      mode.fold (newInfo renames k).name.value = mode.fold k.name.value) :
    Apart mode catalog renames := by
  have hswap : ∀ k ∈ catalog.entries, Equiv.swap i j k ∈ catalog.entries ∧
      mode.fold (newInfo renames k).name.value = mode.fold (Equiv.swap i j k).name.value := by
    intro k hk
    by_cases hki : k = i
    · rw [hki, Equiv.swap_apply_left]
      exact ⟨hj, hij⟩
    · by_cases hkj : k = j
      · rw [hkj, Equiv.swap_apply_right]
        exact ⟨hi, hji⟩
      · rw [Equiv.swap_apply_of_ne_of_ne hki hkj]
        exact ⟨hk, hothers k hk hki hkj⟩
  intro k hk l hl hname
  obtain ⟨hk', hkname⟩ := hswap k hk
  obtain ⟨hl', hlname⟩ := hswap l hl
  refine (Equiv.swap i j).injective (catalog.ascending.eq_of_key hk' hl' ?_)
  rw [key_eq_fold hmode hk', key_eq_fold hmode hl', ← hkname, ← hlname, hname]

/-! ## Which views can be made -/

section Make

/-- The view is refused for what the set of the new names is refused for, and for nothing else. -/
theorem exists_make_eq (settings : Settings) (renames : InfoSet)
    (hcatalog : inner.infos = catalog.asItems) :
    ∃ f : NamedSet Item → MergedView σ, make settings renames.values inner =
      (Failure.ofRejection (NamedSet.of settings catalog.mode
        ((catalog.entries.map (newInfo renames)).map .info))).map f := by
  have hmap : ∀ (x : Except Rejection (NamedSet Item)) (g : NamedSet Item → NamedSet Item)
      (f : NamedSet Item → MergedView σ),
      (Failure.ofRejection (x.map g)).map f = (Failure.ofRejection x).map (f ∘ g) := by
    intro x g f
    cases x <;> rfl
  rw [make_eq hcatalog, NamedSet.update_eq]
  exact ⟨_, hmap _ _ _⟩

variable (hcatalog : inner.infos = catalog.asItems) (hmode : catalog.mode = inner.mode)
  (hdistinct : (catalog.entries.map (·.token)).Nodup)

include hcatalog hmode hdistinct

/-- The view can be made if the new names can be taken and stay apart. -/
theorem exists_make_iff : (∃ view, make settings renames.values inner = .ok view) ↔
    TakesNames settings inner.mode catalog renames ∧ Apart inner.mode catalog renames := by
  obtain ⟨f, hf⟩ := exists_make_eq settings renames hcatalog
  rw [takesNames_iff, ← agree_iff_apart hdistinct, ← NamedSet.exists_of_infos_iff, ← hmode, hf]
  cases NamedSet.of settings catalog.mode ((catalog.entries.map (newInfo renames)).map Item.info) with
  | ok u => exact iff_of_true ⟨f u, rfl⟩ ⟨u, rfl⟩
  | error r => exact iff_of_false (by rintro ⟨view, ⟨⟩⟩) (by rintro ⟨u, ⟨⟩⟩)

/-- It is refused for its names if these can be taken but do not stay apart. -/
theorem make_duplicates_iff :
    (∃ names, make settings renames.values inner = .error (.rejection (.duplicateNames names))) ↔
      TakesNames settings inner.mode catalog renames ∧ ¬ Apart inner.mode catalog renames := by
  obtain ⟨f, hf⟩ := exists_make_eq settings renames hcatalog
  rw [takesNames_iff, ← agree_iff_apart hdistinct, ← NamedSet.duplicates_of_infos_iff, ← hmode, hf]
  refine exists_congr fun names => ?_
  cases NamedSet.of settings catalog.mode ((catalog.entries.map (newInfo renames)).map Item.info) with
  | ok u => exact iff_of_false (by rintro ⟨⟩) (by rintro ⟨⟩)
  | error r =>
    show Except.error (Failure.rejection r) = _ ↔ _
    rw [Except.error.injEq, Failure.rejection.injEq, Except.error.injEq]

end Make

/-- A name that cannot be taken is refused as one. -/
theorem exists_name_of_make (hcatalog : inner.infos = catalog.asItems)
    (h : ¬ TakesNames settings catalog.mode catalog renames) :
    ∃ e, make settings renames.values inner = .error (.rejection (.name e)) := by
  rw [takesNames_iff] at h
  obtain ⟨e, he⟩ := NamedSet.exists_name_of_infos h
  obtain ⟨f, hf⟩ := exists_make_eq settings renames hcatalog
  rw [hf, he]
  exact ⟨e, rfl⟩

/-! ## Where an entry of the view comes from -/

/-- The entry of the catalog with the token of an entry of the view. -/
def origin (catalog : InfoSet) (e : Info) : Info :=
  (catalog.entries.find? (fun i => i.token == e.token)).getD e

theorem origin_eq (hdistinct : (catalog.entries.map (·.token)).Nodup)
    (hi : i ∈ catalog.entries) (htoken : i.token = e.token) : origin catalog e = i := by
  rw [origin]
  cases hfind : catalog.entries.find? (fun i => i.token == e.token) with
  | none => exact absurd (beq_iff_eq.2 htoken) (List.find?_eq_none.1 hfind i hi)
  | some j =>
    have hj := List.find?_some hfind
    exact eq_of_token hdistinct (List.mem_of_find?_eq_some hfind) hi
      ((beq_iff_eq.1 hj).trans htoken.symm)

section View

variable {view : MergedView σ}

/-- The view shows a catalog in the mode of the provider. -/
theorem exists_shown (hcatalog : inner.infos = catalog.asItems)
    (hmode : catalog.mode = inner.mode) (h : make settings renames.values inner = .ok view) :
    ∃ shown : InfoSet, view.infos = shown.asItems ∧ shown.mode = inner.mode := by
  obtain ⟨shown, hshown⟩ := hasCatalog_of_make h ⟨catalog, hcatalog⟩
  have hinfos : view.infos = shown.asItems := hshown
  have hmodes := (mode_of_make h).2
  rw [hinfos, hcatalog] at hmodes
  exact ⟨shown, hinfos, Eq.trans hmodes hmode⟩

variable (hcatalog : inner.infos = catalog.asItems) (hmode : catalog.mode = inner.mode)
  (hdistinct : (catalog.entries.map (·.token)).Nodup)
  (h : make settings renames.values inner = .ok view) (hinfos : view.infos = shown.asItems)
  (hshown : shown.mode = inner.mode)

include hcatalog hmode hdistinct h hinfos hshown

/-- An entry of the view has the token of its origin and the new name of it. -/
theorem origin_of_mem (he : e ∈ shown.entries) :
    origin catalog e ∈ catalog.entries ∧ (origin catalog e).token = e.token ∧
      inner.mode.fold e.name.value =
        inner.mode.fold (newInfo renames (origin catalog e)).name.value := by
  have hshows : view.infos.set.Shows (key e) e.token := by
    rw [hinfos]
    exact ⟨e, List.mem_map_of_mem he, rfl, rfl⟩
  obtain ⟨i, hi, hname, htoken⟩ := (shows_iff hcatalog hmode h).1 hshows
  rw [origin_eq hdistinct hi htoken, hname]
  exact ⟨hi, htoken, (key_eq_fold hshown he).symm⟩

/-- Each entry of the catalog is the origin of one of the view. -/
theorem exists_origin (hi : i ∈ catalog.entries) :
    ∃ e ∈ shown.entries, origin catalog e = i ∧
      inner.mode.fold e.name.value = inner.mode.fold (newInfo renames i).name.value := by
  have hshows := (shows_iff hcatalog hmode h).2 ⟨i, hi, rfl, rfl⟩
  rw [hinfos] at hshows
  obtain ⟨e, he, hkey, htoken⟩ := hshows
  have hmem : e ∈ shown.entries := by
    obtain ⟨e', he', heq⟩ := List.mem_map.1 he
    exact Item.info.inj heq ▸ he'
  refine ⟨e, hmem, origin_eq hdistinct hi htoken.symm, ?_⟩
  rw [← key_eq_fold hshown hmem]
  exact hkey

/-- The entries of the view are those of the catalog under their new names. -/
theorem bijOn_origin :
    Set.BijOn (origin catalog) {e | e ∈ shown.entries} {i | i ∈ catalog.entries} := by
  have horigin := fun e he =>
    origin_of_mem (e := e) hcatalog hmode hdistinct h hinfos hshown he
  refine ⟨fun e he => (horigin e he).1, fun e he e' he' heq => ?_, fun i hi => ?_⟩
  · refine shown.ascending.eq_of_key he he' ?_
    rw [key_eq_fold hshown he, key_eq_fold hshown he', (horigin e he).2.2, (horigin e' he').2.2,
      heq]
  · obtain ⟨e, he, heq, -⟩ := exists_origin hcatalog hmode hdistinct h hinfos hshown hi
    exact ⟨e, he, heq⟩

/-- Behind the name of an entry of the view stands the name of its origin. -/
theorem wrapped_of_shown (he : e ∈ shown.entries) {n : Name}
    (hn : inner.mode.fold n.value = inner.mode.fold e.name.value) :
    view.wrappedNames.get? (inner.mode.fold n.value) = some (origin catalog e).name := by
  obtain ⟨hmem, -, hname⟩ := origin_of_mem hcatalog hmode hdistinct h hinfos hshown he
  have hapart := ((exists_make_iff hcatalog hmode hdistinct).1 ⟨view, h⟩).2
  obtain ⟨-, hnames, -⟩ := exists_of_make hcatalog h
  rw [hnames, hn, hname]
  refine NameTable.get?_of_mem (List.mem_reverse.2 (List.mem_map_of_mem
    (f := fun i => (inner.mode.fold (newInfo renames i).name.value, i.name)) hmem)) fun m hm => ?_
  obtain ⟨j, hj, heq⟩ := List.mem_map.1 (List.mem_reverse.1 hm)
  obtain ⟨hfold, rfl⟩ := Prod.mk.inj heq
  rw [hapart j hj _ hmem hfold]

end View

end MergedView

/-! ## The view -/

open MergedView in
/-- The merging view of a provider whose tokens differ. It is made if the new names can take the mode
of the provider and stay apart there, refused for its names if these do not stay apart, and for a
name that cannot take the mode otherwise; so two names can be swapped if they can take it. The
entries of a view that is made correspond one to one to those of the provider, with the same
tokens; each has the name that its first rename gives it, or else its own. A name of the view is
resolved by a single request for the name of the corresponding entry, and any other name, so that of
a renamed entry unless another one takes it, is refused without a request. -/
theorem merged_view (hcatalog : inner.infos = catalog.asItems) (hmode : catalog.mode = inner.mode)
    (hdistinct : (catalog.entries.map (·.token)).Nodup) :
    ((∃ view, MergedView.make settings renames.values inner.watched = .ok view) ↔
      TakesNames settings inner.mode catalog renames ∧ Apart inner.mode catalog renames) ∧
    ((∃ names, MergedView.make settings renames.values inner.watched =
        .error (.rejection (.duplicateNames names))) ↔
      TakesNames settings inner.mode catalog renames ∧ ¬ Apart inner.mode catalog renames) ∧
    (¬ TakesNames settings inner.mode catalog renames →
      ∃ e, MergedView.make settings renames.values inner.watched =
        .error (.rejection (.name e))) ∧
    (renames.mode = inner.mode → TakesNames settings inner.mode catalog renames) ∧
    (∀ i ∈ catalog.entries, ∀ j ∈ catalog.entries,
      inner.mode.fold (newInfo renames i).name.value = inner.mode.fold j.name.value →
      inner.mode.fold (newInfo renames j).name.value = inner.mode.fold i.name.value →
      (∀ k ∈ catalog.entries, k ≠ i → k ≠ j →
        inner.mode.fold (newInfo renames k).name.value = inner.mode.fold k.name.value) →
      TakesNames settings inner.mode catalog renames →
        ∃ view, MergedView.make settings renames.values inner.watched = .ok view) ∧
    ∀ view, MergedView.make settings renames.values inner.watched = .ok view →
      ∃ (shown : InfoSet) (origin : Info → Info), view.infos = shown.asItems ∧
        shown.mode = inner.mode ∧
        Set.BijOn origin {e | e ∈ shown.entries} {i | i ∈ catalog.entries} ∧
        (∀ e ∈ shown.entries, (origin e).token = e.token ∧
          inner.mode.fold e.name.value =
            inner.mode.fold (newInfo renames (origin e)).name.value ∧
          ∀ n : Name, inner.mode.fold n.value = inner.mode.fold e.name.value →
            Relays inner view.resolveName n (origin e).name) ∧
        (∀ n : Name, shown.containsName n.value = false → Refuses view.resolveName n) ∧
        ∀ n : Name, (∀ i ∈ catalog.entries, inner.mode.fold (newInfo renames i).name.value ≠
          inner.mode.fold n.value) → Refuses view.resolveName n := by
  have hwatched : inner.watched.infos = catalog.asItems := hcatalog
  refine ⟨exists_make_iff hwatched hmode hdistinct, make_duplicates_iff hwatched hmode hdistinct,
    fun h => ?_, takesNames_of_mode settings hmode, fun i hi j hj hij hji hothers htakes =>
      (exists_make_iff hwatched hmode hdistinct).2
        ⟨htakes, apart_of_swap hmode hi hj hij hji hothers⟩, fun view hview => ?_⟩
  · rw [← hmode] at h
    exact exists_name_of_make hwatched h
  · obtain ⟨shown, hinfos, hshown⟩ := exists_shown hwatched hmode hview
    have hinner := (mode_of_make hview).1
    have hrenaming := view.renaming
    rw [hinner] at hrenaming
    have hrefuses : ∀ n : Name, shown.containsName n.value = false →
        Refuses view.resolveName n := by
      intro n hn
      refine hrenaming.refuses (Option.not_isSome_iff_eq_none.1 fun hsome => ?_)
      have hmodes : inner.watched.infos.mode = inner.watched.mode := by
        rw [hwatched]
        exact hmode
      have hget : (view.wrappedNames.get? (view.inner.mode.fold n.value)).isSome = true := by
        rw [hinner]
        exact hsome
      have hfound := containsName_of_wrapped hview hmodes hget
      rw [hinfos, ItemSet.containsName_asItems, hn] at hfound
      cases hfound
    refine ⟨shown, origin catalog, hinfos, hshown,
      bijOn_origin hwatched hmode hdistinct hview hinfos hshown, fun e he => ?_, hrefuses,
      fun n hn => hrefuses n ?_⟩
    · obtain ⟨-, htoken, hname⟩ :=
        origin_of_mem hwatched hmode hdistinct hview hinfos hshown he
      exact ⟨htoken, hname, fun n hn => hrenaming.relays
        (wrapped_of_shown hwatched hmode hdistinct hview hinfos hshown he hn)⟩
    · -- what is shown under the name would have it for its new name
      rw [NamedSet.containsName, Option.isSome_eq_false_iff, Option.isNone_iff_eq_none]
      refine Option.eq_none_iff_forall_not_mem.2 fun e he => ?_
      have hmem := List.mem_of_find?_eq_some he
      obtain ⟨hi, -, hname⟩ :=
        origin_of_mem hwatched hmode hdistinct hview hinfos hshown hmem
      exact hn _ hi (hname.symm.trans (NamedSet.fold_of_get hshown he))

namespace MergedView

/-! ## Names that are too long by now -/

/-- A catalog that ignores case. -/
def threeNames : InfoSet :=
  (InfoSet.parse {} .insensitive "u/abcd abcd,u/b b,u/c c").toOption.getD (NamedSet.empty .insensitive)

/-- A new name for one entry, and for another one the name of the third. -/
def takingC : InfoSet :=
  (InfoSet.parse {} .sensitive "u/abcd abcde,u/b c").toOption.getD (NamedSet.empty .sensitive)

/-- The names of two entries for each other. -/
def swappingB : InfoSet :=
  (InfoSet.parse {} .sensitive "u/b abcd,u/abcd b").toOption.getD (NamedSet.empty .sensitive)

/-- Advertises the catalog and answers any call with its name. -/
def namingThree : Provider Unit :=
  .ofNames .insensitive threeNames.asItems (fun call => pure call.name)

theorem nodup_threeNames : (threeNames.entries.map (·.token)).Nodup := by
  decide +kernel

/-- Once names of four letters are too long, a case-sensitive rename with such a name is refused for
it, though two entries would end up under one name, and though two names would only be swapped. -/
theorem long_names_are_refused :
    namingThree.infos = threeNames.asItems ∧ threeNames.mode = namingThree.mode ∧
      (threeNames.entries.map (·.token)).Nodup ∧
      ¬ Apart namingThree.mode threeNames takingC ∧
      (∃ e, make { nameLimit := 3 } takingC.values namingThree = .error (.rejection (.name e))) ∧
      (swappingB.entries.map (fun r => (r.name.value, r.token))) = [("abcd", "u/b"), ("b", "u/abcd")] ∧
      ∃ e, make { nameLimit := 3 } swappingB.values namingThree = .error (.rejection (.name e)) := by
  have hcatalog : namingThree.infos = threeNames.asItems := rfl
  refine ⟨hcatalog, by decide +kernel, nodup_threeNames, by decide +kernel, ?_, by decide +kernel, ?_⟩
  · exact exists_name_of_make hcatalog (by decide +kernel)
  · exact exists_name_of_make hcatalog (by decide +kernel)

theorem merged_view_swapped :
    namingThree.infos = threeNames.asItems ∧ threeNames.mode = namingThree.mode ∧
      (threeNames.entries.map (·.token)).Nodup ∧
      ∃ (view : MergedView (List Request × Unit)) (shown : InfoSet) (origin : Info → Info),
        make {} swappingB.values namingThree.watched = .ok view ∧ view.infos = shown.asItems ∧
        Set.BijOn origin {e | e ∈ shown.entries} {i | i ∈ threeNames.entries} ∧
        ∀ e ∈ shown.entries, Relays namingThree view.resolveName e.name (origin e).name := by
  have hmode : threeNames.mode = namingThree.mode := by
    decide +kernel
  have htakes : TakesNames {} namingThree.mode threeNames swappingB := by
    decide +kernel
  have hapart : Apart namingThree.mode threeNames swappingB := by
    decide +kernel
  obtain ⟨hmade, -, -, -, -, hview⟩ :=
    merged_view (show namingThree.infos = threeNames.asItems from rfl) hmode nodup_threeNames
  obtain ⟨view, hmake⟩ := hmade.2 ⟨htakes, hapart⟩
  obtain ⟨shown, origin, hinfos, -, hbij, hrelays, -⟩ := hview view hmake
  exact ⟨rfl, hmode, nodup_threeNames, view, shown, origin, hmake, hinfos, hbij,
    fun e he => (hrelays e he).2.2 e.name rfl⟩

end MergedView

end FunctionCatalog
