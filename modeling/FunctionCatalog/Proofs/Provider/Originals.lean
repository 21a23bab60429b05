import FunctionCatalog.Proofs.ItemSet.Infos
import FunctionCatalog.Proofs.Provider.Neutral

/-
  FunctionCatalog: which name stands behind a new one.
  Two views put new names on the entries of a catalog, matched by token. Where several entries of
  the catalog have the token, the renaming view asks for the first of them and the merging view for
  the last (`first_and_last_original`), so they agree exactly if there is only one. That the names
  of an entry and of a rename meet nowhere else rests on the sets that the views show: two infos
  that come into one set under one name have one token.
-/

namespace FunctionCatalog

variable {σ : Type} {settings : Settings}

/-! ## The entries with a token -/

namespace InfoSet

variable (catalog renames : InfoSet)

/-- The entries with a token, in the order of their names. -/
def withToken (token : String) : List Info :=
  catalog.entries.filter (fun i => i.token == token)

variable {catalog renames}

theorem mem_withToken {token : String} {i : Info} :
    i ∈ catalog.withToken token ↔ i ∈ catalog.entries ∧ i.token = token := by
  rw [withToken, List.mem_filter, beq_iff_eq]

/-- The first and the last entry with a token have one name exactly if there is only one. -/
theorem length_withToken_eq_one_iff {token : String} {first last : Info}
    (hfirst : (catalog.withToken token).head? = some first)
    (hlast : (catalog.withToken token).getLast? = some last) :
    (catalog.withToken token).length = 1 ↔ first.name = last.name := by
  have hdistinct : (catalog.withToken token).Pairwise (fun i j => Entry.key i ≠ Entry.key j) :=
    catalog.ascending.distinct.sublist List.filter_sublist
  obtain ⟨rest, hrest⟩ := List.head?_eq_some_iff.1 hfirst
  rw [hrest] at hlast hdistinct ⊢
  cases rest with
  | nil =>
    obtain rfl := Option.some.inj hlast
    exact iff_of_true rfl rfl
  | cons i rest =>
    have hmem : last ∈ i :: rest := by
      rw [List.getLast?_cons_cons] at hlast
      exact List.mem_of_getLast? hlast
    refine iff_of_false (by simp) fun hname => ?_
    exact (List.pairwise_cons.1 hdistinct).1 last hmem (congrArg Name.key hname)

end InfoSet

theorem Tokened.find?_map_tokened (infos : List Info) (token : String) :
    Tokened.find? (infos.map Info.tokened) (.text token) =
      (infos.find? (fun i => i.token == token)).map .info := by
  rw [Tokened.find?, List.find?_map, Option.map_map]
  simp only [Function.comp_def, Info.tokened, Info.agrees_text]

/-! ## Tables -/

namespace NameTable

variable {t : NameTable} {key : String} {n : Name}

/-- What is in a table is found where nothing else is under its key. -/
theorem get?_of_mem (hmem : (key, n) ∈ t) (hother : ∀ m, (key, m) ∈ t → m = n) :
    t.get? key = some n := by
  cases hget : t.get? key with
  | none =>
    rw [get?, Option.map_eq_none_iff, List.find?_eq_none] at hget
    exact absurd (beq_self_eq_true key) (hget _ hmem)
  | some m => rw [hother m (mem_of_get hget)]

/-- In a table that is filled from the front the last one counts. -/
theorem get?_reverse_map {α : Type} (f : α → String) (g : α → Name) (xs : List α) (key : String) :
    NameTable.get? (xs.map (fun x => (f x, g x))).reverse key =
      (xs.filter (fun x => f x == key)).getLast?.map g := by
  rw [get?, ← List.map_reverse, List.find?_map, Option.map_map, List.getLast?_eq_head?_reverse,
    ← List.filter_reverse, List.head?_filter]
  rfl

end NameTable

/-! ## The renaming view -/

section Views

variable {inner : Provider σ} {catalog renames : InfoSet} {r : Info} {key : String}

theorem tokened_asItems (catalog : InfoSet) :
    catalog.asItems.tokened = .ok (catalog.entries.map Info.tokened) := by
  show (catalog.entries.map Item.info).mapM Tokened.ofItem = _
  rw [List.mapM_map]
  exact mapM_eq_ok_map fun i _ => rfl

/-- A rename with the name of the first entry that has its token. -/
def RenamedView.paired? (catalog : InfoSet) (r : Info) : Option (Info × Name) :=
  (catalog.withToken r.token).head?.map (fun i => (r, i.name))

namespace RenamedView

theorem mapM_matched?_values (catalog renames : InfoSet) :
    renames.values.mapM (matched? (catalog.entries.map Info.tokened)) =
      .ok (renames.entries.map (fun r => (paired? catalog r).map (fun p => (.info p.1, p.2)))) := by
  rw [InfoSet.values, List.mapM_map]
  refine mapM_eq_ok_map fun r _ => ?_
  show Except.ok ((Tokened.find? (catalog.entries.map Info.tokened) (.text r.token)).map _) = _
  rw [Tokened.find?_map_tokened, paired?, InfoSet.withToken, List.head?_filter, Option.map_map,
    Option.map_map]
  rfl

/-- The view is made of the renames whose token the catalog has, if these make a set. -/
theorem make_eq (hcatalog : inner.infos = catalog.asItems) :
    make settings renames.values inner =
      (ItemSet.of settings .infos inner.mode
        (((renames.entries.filterMap (paired? catalog)).map (·.1)).map .info)).map fun visible =>
          { inner
            wrappedNames := ((renames.entries.filterMap (paired? catalog)).map
              (fun p => (inner.mode.fold p.1.name.value, p.2))).reverse
            renames := (renames.entries.filterMap (paired? catalog)).map
              (fun p => (inner.mode.fold p.2.value, p.1.name))
            infos := visible } := by
  have hpairs : (renames.entries.map (fun r => (paired? catalog r).map
      (fun p => (Item.info p.1, p.2)))).filterMap id =
        (renames.entries.filterMap (paired? catalog)).map (fun p => (Item.info p.1, p.2)) := by
    rw [List.filterMap_map, List.map_filterMap]
    rfl
  rw [make, hcatalog, tokened_asItems]
  simp only [bind, Except.bind, mapM_matched?_values, hpairs, List.map_map, Function.comp_def]
  cases ItemSet.of settings .infos inner.mode
    ((renames.entries.filterMap (paired? catalog)).map (fun p => Item.info p.1)) <;> rfl

/-- The view shows the renames whose token the catalog has, and looks each up under its new name. -/
theorem exists_of_make (hcatalog : inner.infos = catalog.asItems) {view : RenamedView σ}
    (h : make settings renames.values inner = .ok view) :
    view.inner = inner ∧
      view.wrappedNames = ((renames.entries.filterMap (paired? catalog)).map
        (fun p => (inner.mode.fold p.1.name.value, p.2))).reverse ∧
      ∃ t, NamedSet.of settings inner.mode
          (((renames.entries.filterMap (paired? catalog)).map (·.1)).map .info) = .ok t ∧
        view.infos = ⟨.infos, t⟩ := by
  rw [make_eq hcatalog] at h
  obtain ⟨visible, hvisible, rfl⟩ := exists_of_map_ok h
  obtain ⟨t, ht, rfl⟩ := exists_of_map_ok hvisible
  exact ⟨rfl, rfl, t, ok_of_mapError_ok ht, rfl⟩

/-- Behind a rename stands the first entry with its token. -/
theorem wrapped_of_make (hcatalog : inner.infos = catalog.asItems) {view : RenamedView σ}
    (h : make settings renames.values inner = .ok view) (hr : r ∈ renames.entries) {first : Info}
    (hfirst : (catalog.withToken r.token).head? = some first)
    (hkey : key = inner.mode.fold r.name.value) :
    view.wrappedNames.get? key = some first.name := by
  subst hkey
  obtain ⟨-, hnames, t, ht, -⟩ := exists_of_make hcatalog h
  have hpair : (r, first.name) ∈ renames.entries.filterMap (paired? catalog) :=
    List.mem_filterMap.2 ⟨r, hr, by rw [paired?, hfirst, Option.map_some]⟩
  rw [hnames]
  refine NameTable.get?_of_mem
    (List.mem_reverse.2 (List.mem_map_of_mem (f := fun p => (inner.mode.fold p.1.name.value, p.2))
      hpair)) fun m hm => ?_
  obtain ⟨p, hp, heq⟩ := List.mem_map.1 (List.mem_reverse.1 hm)
  obtain ⟨hname, rfl⟩ := Prod.mk.inj heq
  have htoken := NamedSet.token_eq_of_fold ht (List.mem_map_of_mem hp) (List.mem_map_of_mem hpair)
    hname
  -- the other pair has the token of the rename, and so its name comes from the same entry
  obtain ⟨r', -, hr'⟩ := List.mem_filterMap.1 hp
  obtain ⟨i, hi, rfl⟩ := Option.map_eq_some_iff.1 hr'
  rw [show r'.token = r.token from htoken, hfirst] at hi
  exact congrArg Info.name (Option.some.inj hi).symm

end RenamedView

/-! ## The merging view -/

namespace MergedView

/-- An entry as the view shows it: the first rename with its token, else the entry itself. -/
def newInfo (renames : InfoSet) (i : Info) : Info :=
  (renames.entries.find? (fun r => r.token == i.token)).getD i

theorem token_newInfo (renames : InfoSet) (i : Info) : (newInfo renames i).token = i.token := by
  rw [newInfo]
  cases hfind : renames.entries.find? (fun r => r.token == i.token) with
  | none => rfl
  | some r => exact beq_iff_eq.1 (List.find?_some hfind :)

theorem newInfo_of_token (hr : r ∈ renames.entries) {i j : Info} (hi : i.token = r.token)
    (hj : j.token = r.token) : newInfo renames i = newInfo renames j := by
  rw [newInfo, newInfo, hi, hj]
  cases hfind : renames.entries.find? (fun x => x.token == r.token) with
  | none => exact absurd (beq_self_eq_true r.token) (List.find?_eq_none.1 hfind r hr)
  | some x => rfl

theorem getD_find? (renames : InfoSet) (i : Info) :
    (Tokened.find? (renames.entries.map Info.tokened) (.text i.token)).getD (.info i) =
      .info (newInfo renames i) := by
  rw [Tokened.find?_map_tokened, newInfo]
  cases renames.entries.find? (fun r => r.token == i.token) <;> rfl

theorem mapM_ofValue_values (renames : InfoSet) :
    renames.values.mapM Tokened.ofValue = .ok (renames.entries.map Info.tokened) := by
  rw [InfoSet.values, List.mapM_map]
  exact mapM_eq_ok_map fun r _ => rfl

/-- A catalog that takes the names of the renames is a change to its entries under their new names. -/
theorem renameIfPresent_values (settings : Settings) (catalog renames : InfoSet) :
    catalog.asItems.renameIfPresent settings renames.values =
      catalog.asItems.ofChange (catalog.asItems.set.update settings
        ((catalog.entries.map (newInfo renames)).map .info)) := by
  have hsteps : catalog.asItems.entries.map (fun i => do
      return (Tokened.find? (renames.entries.map Info.tokened) (← i.tokenKey)).getD i) =
        ((catalog.entries.map (newInfo renames)).map Item.info).map Except.ok := by
    show (catalog.entries.map Item.info).map _ = _
    rw [List.map_map, List.map_map, List.map_map]
    refine List.map_congr_left fun i _ => ?_
    exact congrArg Except.ok (getD_find? renames i)
  rw [ItemSet.renameIfPresent, mapM_ofValue_values]
  show catalog.asItems.updateSteps settings _ = _
  rw [hsteps, ItemSet.updateSteps, NamedSet.updateSteps_map_ok]
  rfl

/-- The view is made of the entries under their new names, if these make a set. -/
theorem make_eq (hcatalog : inner.infos = catalog.asItems) :
    make settings renames.values inner =
      (Failure.ofRejection (catalog.asItems.set.update settings
        ((catalog.entries.map (newInfo renames)).map .info))).map fun t =>
          { inner
            wrappedNames := (catalog.entries.map
              (fun i => (inner.mode.fold (newInfo renames i).name.value, i.name))).reverse
            infos := ⟨.infos, t⟩ } := by
  have htable : ((catalog.entries.map Info.tokened).map (fun w => (inner.mode.fold
      (newName (renames.entries.map Info.tokened) w).value, w.item.name))) =
        catalog.entries.map (fun i => (inner.mode.fold (newInfo renames i).name.value, i.name)) := by
    rw [List.map_map]
    refine List.map_congr_left fun i _ => ?_
    have hname : newName (renames.entries.map Info.tokened) i.tokened =
        (newInfo renames i).name := by
      rw [newName_eq]
      exact congrArg Item.name (getD_find? renames i)
    show (inner.mode.fold (newName _ i.tokened).value, i.name) = _
    rw [hname]
  have hkind : catalog.asItems.kind = .infos := rfl
  rw [make, hcatalog, mapM_ofValue_values, tokened_asItems]
  simp only [hkind, bind, Except.bind, htable, renameIfPresent_values]
  cases catalog.asItems.set.update settings
    ((catalog.entries.map (newInfo renames)).map Item.info) <;> rfl

/-- The view shows the entries under their new names and looks each up there. -/
theorem exists_of_make (hcatalog : inner.infos = catalog.asItems) {view : MergedView σ}
    (h : make settings renames.values inner = .ok view) :
    view.inner = inner ∧
      view.wrappedNames = (catalog.entries.map
        (fun i => (inner.mode.fold (newInfo renames i).name.value, i.name))).reverse ∧
      ∃ t u, NamedSet.of settings catalog.mode
          ((catalog.entries.map (newInfo renames)).map .info) = .ok u ∧
        view.infos = ⟨.infos, t⟩ ∧ (t = u ∨ u.same t = true ∧ t = catalog.asItems.set) := by
  rw [make_eq hcatalog] at h
  obtain ⟨t, ht, rfl⟩ := exists_of_map_ok h
  obtain ⟨entries, u, hentries, hu, hchoice⟩ :=
    NamedSet.exists_of_updateSteps (ok_of_mapError_ok ht)
  refine ⟨rfl, rfl, t, u, ?_, rfl, ?_⟩
  · rw [show (catalog.entries.map (newInfo renames)).map Item.info = entries from
      List.map_injective_iff.2 (fun a b => Except.ok.inj) hentries]
    exact hu
  · rcases hchoice with ⟨hsame, rfl⟩ | ⟨-, rfl⟩
    · exact .inr ⟨hsame, rfl⟩
    · exact .inl rfl

/-- The view shows each entry under its new name with its own token, and nothing else. -/
theorem shows_iff (hcatalog : inner.infos = catalog.asItems) (hmode : catalog.mode = inner.mode)
    {view : MergedView σ} (h : make settings renames.values inner = .ok view) {token : String} :
    view.infos.set.Shows key token ↔ ∃ i ∈ catalog.entries,
      inner.mode.fold (newInfo renames i).name.value = key ∧ i.token = token := by
  obtain ⟨-, -, t, u, hu, hinfos, ht⟩ := exists_of_make hcatalog h
  have hmem : ∀ e ∈ u.entries, ∃ j, e = .info j := fun e he =>
    let ⟨i, _, heq⟩ := NamedSet.exists_of_mem_infos hu he
    ⟨_, heq⟩
  have hshows : u.Shows key token ↔ ∃ i ∈ catalog.entries,
      inner.mode.fold (newInfo renames i).name.value = key ∧ i.token = token := by
    rw [← hmode]
    constructor
    · intro hshows
      obtain ⟨j, hj, hname, htoken⟩ := NamedSet.exists_of_shows hu hshows
      obtain ⟨i, hi, rfl⟩ := List.mem_map.1 hj
      exact ⟨i, hi, hname, (token_newInfo renames i).symm.trans htoken⟩
    · rintro ⟨i, hi, rfl, rfl⟩
      rw [← token_newInfo renames i]
      exact NamedSet.shows_of hu (List.mem_map_of_mem hi)
  rw [hinfos, ← hshows]
  rcases ht with rfl | ⟨hsame, rfl⟩
  · exact Iff.rfl
  · refine (NamedSet.shows_iff_of_same hsame hmem fun e he => ?_).symm
    obtain ⟨i, -, rfl⟩ := List.mem_map.1 he
    exact ⟨i, rfl⟩

/-- What the view advertises comes of an entry with its token. -/
theorem exists_of_contains (hcatalog : inner.infos = catalog.asItems)
    (hmode : catalog.mode = inner.mode) {view : MergedView σ}
    (h : make settings renames.values inner = .ok view)
    (hadvertised : view.infos.contains (.item (.info r)) = true) :
    ∃ i ∈ catalog.entries,
      inner.mode.fold (newInfo renames i).name.value = inner.mode.fold r.name.value ∧
        i.token = r.token := by
  have hinfos : ∀ e ∈ view.infos.set.entries, ∃ j, e = .info j := by
    obtain ⟨shown, hshown⟩ := hasCatalog_of_make h ⟨catalog, hcatalog⟩
    rw [show view.infos = shown.asItems from hshown]
    intro e he
    obtain ⟨i, -, rfl⟩ := List.mem_map.1 he
    exact ⟨i, rfl⟩
  have hshows := (NamedSet.contains_info_iff hinfos).1 hadvertised
  have hmodes : view.infos.mode = inner.mode := by
    rw [(mode_of_make h).2, hcatalog]
    exact hmode
  have hfold : view.infos.set.fold r.name.value = inner.mode.fold r.name.value :=
    congrArg (CaseMode.fold · r.name.value) hmodes
  rw [hfold] at hshows
  exact (shows_iff hcatalog hmode h).1 hshows

/-- The entries that are shown under a rename are those with its token. -/
theorem fold_newInfo_iff (hcatalog : inner.infos = catalog.asItems)
    (hmode : catalog.mode = inner.mode) {view : MergedView σ}
    (h : make settings renames.values inner = .ok view) (hr : r ∈ renames.entries)
    (hadvertised : view.infos.contains (.item (.info r)) = true) {i : Info}
    (hi : i ∈ catalog.entries) :
    inner.mode.fold (newInfo renames i).name.value = inner.mode.fold r.name.value ↔
      i.token = r.token := by
  obtain ⟨-, -, -, u, hu, -⟩ := exists_of_make hcatalog h
  obtain ⟨j, hj, hname, htoken⟩ := exists_of_contains hcatalog hmode h hadvertised
  constructor
  · intro hfold
    have hsame : (newInfo renames i).token = (newInfo renames j).token :=
      NamedSet.token_eq_of_fold hu (List.mem_map_of_mem hi) (List.mem_map_of_mem hj)
        (by rw [hmode, hfold, hname])
    rw [token_newInfo, token_newInfo] at hsame
    exact hsame.trans htoken
  · intro hi
    rw [newInfo_of_token hr hi htoken, hname]

/-- Behind a rename that the view advertises stands the last entry with its token. -/
theorem wrapped_of_make (hcatalog : inner.infos = catalog.asItems)
    (hmode : catalog.mode = inner.mode) {view : MergedView σ}
    (h : make settings renames.values inner = .ok view) (hr : r ∈ renames.entries)
    (hadvertised : view.infos.contains (.item (.info r)) = true) {last : Info}
    (hlast : (catalog.withToken r.token).getLast? = some last)
    (hkey : key = inner.mode.fold r.name.value) :
    view.wrappedNames.get? key = some last.name := by
  subst hkey
  obtain ⟨-, hnames, -⟩ := exists_of_make hcatalog h
  have hentries : catalog.entries.filter (fun i =>
      inner.mode.fold (newInfo renames i).name.value == inner.mode.fold r.name.value) =
        catalog.withToken r.token := by
    refine List.filter_congr fun i hi => Bool.eq_iff_iff.2 ?_
    rw [beq_iff_eq, beq_iff_eq]
    exact fold_newInfo_iff hcatalog hmode h hr hadvertised hi
  rw [hnames, NameTable.get?_reverse_map, hentries, hlast]
  rfl

end MergedView

/-! ## Both views -/

/-- Where both views advertise a rename, the catalog has entries with its token. For the new name the
renaming view asks for the first of them and the merging view for the last, whatever the values and
the context, and these have one name exactly if there is no other entry with the token. -/
theorem first_and_last_original (hcatalog : inner.infos = catalog.asItems)
    (hmode : catalog.mode = inner.mode) {renamed : RenamedView σ} {merged : MergedView σ}
    (hrenamed : RenamedView.make settings renames.values inner = .ok renamed)
    (hmerged : MergedView.make settings renames.values inner = .ok merged)
    (hr : r ∈ renames.entries) (hadvertised : merged.infos.contains (.item (.info r)) = true) :
    ∃ first last, (catalog.withToken r.token).head? = some first ∧
      (catalog.withToken r.token).getLast? = some last ∧
      (∀ n : Name, inner.mode.fold n.value = inner.mode.fold r.name.value → ∀ vs context,
        renamed.resolveName (.ofName n vs context) =
            inner.relabel first.name (.ofName n vs context) ∧
          merged.resolveName (.ofName n vs context) =
            inner.relabel last.name (.ofName n vs context)) ∧
      (first.name = last.name ↔ (catalog.withToken r.token).length = 1) := by
  obtain ⟨i, hi, -, htoken⟩ := MergedView.exists_of_contains hcatalog hmode hmerged hadvertised
  have hne : catalog.withToken r.token ≠ [] :=
    List.ne_nil_of_mem (InfoSet.mem_withToken.2 ⟨hi, htoken⟩)
  have hfirst := List.head?_eq_some_head hne
  have hlast := List.getLast?_eq_some_getLast hne
  obtain ⟨hinner, -⟩ := RenamedView.exists_of_make hcatalog hrenamed
  obtain ⟨hinner', -⟩ := MergedView.exists_of_make hcatalog hmerged
  refine ⟨_, _, hfirst, hlast, fun n hn vs context => ⟨?_, ?_⟩,
    (InfoSet.length_withToken_eq_one_iff hfirst hlast).symm⟩
  · have hget := RenamedView.wrapped_of_make hcatalog hrenamed hr hfirst hn
    rw [← hinner] at hget ⊢
    exact renamed.renaming.found hget vs context
  · have hget := MergedView.wrapped_of_make hcatalog hmode hmerged hr hadvertised hlast hn
    rw [← hinner'] at hget ⊢
    exact merged.renaming.found hget vs context

end Views

/-! ## A token under two names -/

namespace Aggregate

/-- A catalog with one token under two names. -/
def twice : InfoSet :=
  pairCatalog .sensitive (letter .sensitive "a" "u" (Eq.refl true) (Eq.refl true))
    (letter .sensitive "b" "u" (Eq.refl true) (Eq.refl true)) rfl rfl (by decide)

/-- A new name for the token. -/
def letterX : Info :=
  letter .sensitive "x" "u" (Eq.refl true) (Eq.refl true)

def onlyX : InfoSet where
  mode := .sensitive
  entries := [letterX]
  mode_of_mem := fun e he => by
    rw [List.mem_singleton.1 he]
    rfl
  ascending := List.pairwise_singleton _ _

/-- Advertises the token twice, notes its calls and answers with functions. -/
def noting : Provider (List Call × Unit) :=
  .ofNames .sensitive twice.asItems (Resolver.recording fun call =>
    match call.name with
    | .name n => pure (.item (.function (.make n .echo [])))
    | _ => .fail .noSuchPart)

/-- The names that a resolver has the provider asked for. -/
def asked (resolver : Resolver (List Call × Unit)) : List (Option String) :=
  (resolver (.ofName letterX.name [] .null) {} ⟨0, ([], ())⟩).2.state.1.map
    (fun call => call.name.valuePart?)

/-- Its renaming view. -/
def renamedNoting : RenamedView (List Call × Unit) :=
  (RenamedView.make {} onlyX.values noting).toOption.getD ⟨noting, [], [], noting.infos⟩

/-- Its merging view. -/
def mergedNoting : MergedView (List Call × Unit) :=
  (MergedView.make {} onlyX.values noting).toOption.getD ⟨noting, [], noting.infos⟩

theorem make_noting :
    RenamedView.make {} onlyX.values noting = .ok renamedNoting ∧
      MergedView.make {} onlyX.values noting = .ok mergedNoting :=
  ⟨eq_ok_of_isOk (by decide +kernel) _, eq_ok_of_isOk (by decide +kernel) _⟩

end Aggregate

open Aggregate in
/-- Both views advertise the new name and answer to it, but one of them asks for the first name of
the token and the other for the last. -/
theorem renamed_and_merged_disagree :
    RenamedView.make {} onlyX.values noting = .ok renamedNoting ∧
      MergedView.make {} onlyX.values noting = .ok mergedNoting ∧ letterX ∈ onlyX.entries ∧
      renamedNoting.infos.contains (.item (.info letterX)) = true ∧
      mergedNoting.infos.contains (.item (.info letterX)) = true ∧
      asked renamedNoting.resolveName = [some "a"] ∧
      asked mergedNoting.resolveName = [some "b"] := by
  refine ⟨make_noting.1, make_noting.2, List.mem_singleton_self _, ?_, ?_, ?_, ?_⟩ <;>
    decide +kernel

open Aggregate in
theorem first_and_last_original_twice :
    RenamedView.make {} onlyX.values noting = .ok renamedNoting ∧
      MergedView.make {} onlyX.values noting = .ok mergedNoting ∧ letterX ∈ onlyX.entries ∧
      mergedNoting.infos.contains (.item (.info letterX)) = true ∧
      ∃ first last, (twice.withToken letterX.token).head? = some first ∧
        (twice.withToken letterX.token).getLast? = some last ∧
        (∀ n : Name, noting.mode.fold n.value = noting.mode.fold letterX.name.value →
          ∀ vs context,
          renamedNoting.resolveName (.ofName n vs context) =
              noting.relabel first.name (.ofName n vs context) ∧
            mergedNoting.resolveName (.ofName n vs context) =
              noting.relabel last.name (.ofName n vs context)) ∧
        (first.name = last.name ↔ (twice.withToken letterX.token).length = 1) := by
  have hadvertised : mergedNoting.infos.contains (.item (.info letterX)) = true := by
    decide +kernel
  have hr := List.mem_singleton_self letterX
  exact ⟨make_noting.1, make_noting.2, hr, hadvertised,
    first_and_last_original rfl rfl make_noting.1 make_noting.2 hr hadvertised⟩

end FunctionCatalog
