import FunctionCatalog.Proofs.ItemSet.Infos
import FunctionCatalog.Proofs.Provider.Spelling

/-
  FunctionCatalog: views that change nothing.
  A view that forwards every name, declares the whole catalog or renames each entry to itself has the
  catalog of the wrapped provider and answers as it does (`neutralViews_match`). It looks names up in
  a table of its own, which has just the names of the catalog: other names are unknown to the wrapped
  provider as well, and it does not see how the view writes the names that it passes on.
-/

namespace FunctionCatalog

variable {σ ι : Type} {settings : Settings} {context : Value}

/-! ## Sets of entries that are in order -/

namespace NamedSet
open Entry

variable {α ε : Type} [Entry α] {mode : CaseMode} {es : List α}

/-- Working entries out that are there already. -/
theorem ofSteps_map_ok (refuse : Rejection → ε) (settings : Settings) (mode : CaseMode)
    (es : List α) :
    ofSteps refuse settings mode (es.map .ok) = (of settings mode es).mapError refuse := by
  have hfold : ∀ d : Draft α mode,
      (es.foldlM (fun d e => (Draft.add settings d e).mapError refuse) d >>= fun d =>
        d.finish.mapError refuse) =
      (es.foldlM (Draft.add settings) d >>= Draft.finish).mapError refuse := by
    induction es with
    | nil => exact fun d => rfl
    | cons e es ih =>
      intro d
      rw [List.foldlM_cons, List.foldlM_cons]
      cases hadd : Draft.add settings d e with
      | error r => rfl
      | ok d' => exact ih d'
  rw [of_eq, ofSteps, List.foldlM_map]
  exact hfold _

theorem updateSteps_map_ok (refuse : Rejection → ε) (settings : Settings) (s : NamedSet α)
    (es : List α) :
    s.updateSteps refuse settings (es.map .ok) = (s.update settings es).mapError refuse := by
  have hof : of settings s.mode es = ofSteps id settings s.mode (es.map .ok) := rfl
  rw [update, updateSteps, updateSteps, ofSteps_map_ok, ← hof]
  cases of settings s.mode es <;> rfl

end NamedSet

/-! ## Catalogs whose tokens differ -/

namespace Info

/-- An info with its token, as something to match others with. -/
def tokened (i : Info) : Tokened :=
  ⟨.text i.token, .info i⟩

theorem agrees_text (s t : String) : (Value.text s).agrees (.text t) = (s == t) := by
  simp [Value.agrees, Value.kindText, Value.same]

end Info

section Tokens

variable {infos : List Info}

theorem find?_tokened (h : (infos.map (·.token)).Nodup) {i : Info} (hi : i ∈ infos) :
    Tokened.find? (infos.map Info.tokened) (.text i.token) = some (.info i) := by
  induction infos with
  | nil => cases hi
  | cons j infos ih =>
    obtain ⟨hj, hrest⟩ := List.nodup_cons.1 h
    rw [Tokened.find?, List.map_cons]
    rcases List.mem_cons.1 hi with rfl | hi
    · rw [List.find?_cons_of_pos (by simp [Info.tokened, Info.agrees_text])]
      rfl
    · have hne : j.token ≠ i.token := fun heq => hj (List.mem_map.2 ⟨i, hi, heq.symm⟩)
      rw [List.find?_cons_of_neg (by simp [Info.tokened, Info.agrees_text, hne])]
      exact ih hrest hi

/-- Nothing is said about tokens that differ. -/
theorem warnings_eq_nil {seen : List Info} (h : ((seen ++ infos).map (·.token)).Nodup) :
    RenamedView.warnings (seen.map Info.tokened) (infos.map .info) = [] := by
  induction infos generalizing seen with
  | nil => rfl
  | cons i infos ih =>
    have hnew : Tokened.find? (seen.map Info.tokened) (.text i.token) = none := by
      rw [Tokened.find?, Option.map_eq_none_iff, List.find?_eq_none]
      intro t ht
      obtain ⟨j, hj, rfl⟩ := List.mem_map.1 ht
      have hne : j.token ≠ i.token := by
        rw [List.map_append, List.nodup_append] at h
        exact h.2.2 _ (List.mem_map_of_mem hj) _ (List.mem_map_of_mem List.mem_cons_self)
      simp [Info.tokened, Info.agrees_text, hne]
    have hseen : seen.map Info.tokened ++ [⟨.text i.token, .info i⟩] =
        (seen ++ [i]).map Info.tokened := by
      rw [List.map_append]
      rfl
    have hkey : (Item.info i).tokenKey = .ok (.text i.token) := rfl
    rw [List.map_cons, RenamedView.warnings]
    simp only [hkey, hnew, hseen]
    exact ih (by simpa using h)

end Tokens

/-! ## Tables of names that stand for themselves -/

namespace NameTable

/-- The table in which each of some names is found under its own form. -/
def ofNames (mode : CaseMode) (names : List Name) : NameTable :=
  (names.map (fun n => (mode.fold n.value, n))).reverse

variable {mode : CaseMode} {names : List Name} {key : String} {n : Name}

theorem fold_of_get (h : (ofNames mode names).get? key = some n) : mode.fold n.value = key := by
  obtain ⟨m, -, heq⟩ := List.mem_map.1 (List.mem_reverse.1 (mem_of_get h))
  obtain ⟨hkey, rfl⟩ := Prod.mk.inj heq
  exact hkey

theorem get?_eq_none_iff :
    (ofNames mode names).get? key = none ↔ key ∉ names.map (fun n => mode.fold n.value) := by
  rw [get?, Option.map_eq_none_iff, List.find?_eq_none, List.mem_map]
  constructor
  · rintro h ⟨m, hm, rfl⟩
    exact h (mode.fold m.value, m)
      (List.mem_reverse.2 (List.mem_map_of_mem (f := fun n => (mode.fold n.value, n)) hm)) (by simp)
  · rintro h e he
    obtain ⟨m, hm, rfl⟩ := List.mem_map.1 (List.mem_reverse.1 he)
    simpa using fun heq => h ⟨m, hm, heq⟩

end NameTable

namespace InfoSet

variable (catalog : InfoSet)

/-- The entries of a catalog make a catalog of just these. -/
theorem exists_of_entries (settings : Settings) :
    ∃ t, ItemSet.of settings .infos catalog.mode (catalog.entries.map .info) = .ok t ∧
      t.kind = .infos ∧ t.mode = catalog.mode ∧ t.entries = catalog.entries.map .info := by
  obtain ⟨t, ht, hmode, hentries⟩ :=
    NamedSet.exists_catalog_of settings catalog.mode_of_mem catalog.ascending
  exact ⟨t.asItems, ht, rfl, hmode, congrArg (List.map Item.info) hentries⟩

theorem key_info {i : Info} (hi : i ∈ catalog.entries) :
    Entry.key (Item.info i) = catalog.mode.fold i.name.value :=
  ItemSet.key_of_mem (s := catalog.asItems) (List.mem_map_of_mem hi)

theorem get?_of_mem {i : Info} (hi : i ∈ catalog.entries) :
    catalog.asItems.set.get? i.name.value = some (.info i) :=
  NamedSet.find?_eq_some_iff.2 ⟨List.mem_map_of_mem hi, catalog.key_info hi⟩

theorem containsName_iff_mem {text : String} :
    catalog.asItems.set.containsName text = true ↔
      catalog.mode.fold text ∈ catalog.entries.map (fun i => catalog.mode.fold i.name.value) := by
  have hkeys : catalog.asItems.set.entries.map Entry.key =
      catalog.entries.map (fun i => catalog.mode.fold i.name.value) := by
    show (catalog.entries.map Item.info).map Entry.key = _
    rw [List.map_map]
    exact List.map_congr_left fun i hi => catalog.key_info hi
  rw [NamedSet.containsName_iff, hkeys]
  rfl

/-- The names of a catalog, each of which is forwarded. -/
def forwarding : List Item :=
  catalog.entries.map (fun i => .alias (.passThrough i.name))

theorem exists_aliasSet (settings : Settings) :
    ∃ aliases, catalog.asItems.aliasSet settings = .ok aliases ∧ aliases.mode = catalog.mode ∧
      aliases.entries = catalog.forwarding := by
  have hmode : ∀ e ∈ catalog.forwarding, (Entry.name e).mode = catalog.mode := by
    intro e he
    obtain ⟨i, hi, rfl⟩ := List.mem_map.1 he
    exact catalog.mode_of_mem i hi
  have hkeys : catalog.forwarding.map Entry.key = catalog.entries.map Entry.key := by
    rw [forwarding, List.map_map]
    rfl
  obtain ⟨t, ht, htmode, hentries⟩ := NamedSet.exists_of_ascending settings hmode
    (catalog.ascending.of_map_eq hkeys)
  have hsame : catalog.asItems.entries.map (fun i => .alias (.passThrough i.name)) =
      catalog.forwarding := by
    show (catalog.entries.map Item.info).map _ = _
    rw [List.map_map]
    rfl
  refine ⟨⟨.aliases, t⟩, ?_, htmode, hentries⟩
  show (Failure.ofRejection (NamedSet.of settings catalog.mode
    (catalog.asItems.entries.map (fun i => Item.alias (.passThrough i.name))))).map _ = _
  rw [hsame, ht]
  rfl

/-- Through its own names a catalog shows as it is. -/
theorem exists_merge (settings : Settings) {aliases : ItemSet} (hmode : aliases.mode = catalog.mode)
    (hentries : aliases.entries = catalog.forwarding) :
    ∃ t, aliases.merge settings catalog.asItems.advertised? = .ok t ∧
      t.kind = .infos ∧ t.mode = catalog.mode ∧ t.entries = catalog.entries.map .info := by
  have hshown : aliases.entries.mapM (ItemSet.shown? settings catalog.asItems.advertised?) =
      .ok (catalog.entries.map (fun i => some (.info i))) := by
    rw [hentries, forwarding, List.mapM_map]
    refine mapM_eq_ok_map fun i hi => ?_
    show ItemSet.shown? settings _ (.alias (.passThrough i.name)) = _
    rw [ItemSet.shown_of_forwarded rfl]
    exact congrArg Except.ok (catalog.get?_of_mem hi)
  have hfilter : (catalog.entries.map (fun i => some (Item.info i))).filterMap id =
      catalog.entries.map .info := by
    rw [List.filterMap_map]
    show catalog.entries.filterMap (some ∘ Item.info) = _
    rw [List.filterMap_eq_map]
  obtain ⟨t, ht, hfacts⟩ := catalog.exists_of_entries settings
  refine ⟨t, ?_, hfacts⟩
  rw [ItemSet.merge, hshown]
  show ItemSet.of settings .infos aliases.mode ((catalog.entries.map _).filterMap id) = _
  rw [hfilter, hmode, ht]

/-- Entries that keep their own names make the same catalog again. -/
theorem exists_renameIfPresent (settings : Settings) {renames : List Value} {held : List Tokened}
    (hheld : renames.mapM Tokened.ofValue = .ok held)
    (hown : ∀ i ∈ catalog.entries,
      (Tokened.find? held (.text i.token)).getD (.info i) = .info i) :
    ∃ t, catalog.asItems.renameIfPresent settings renames = .ok t ∧ t.kind = .infos ∧
      t.mode = catalog.mode ∧ t.entries = catalog.entries.map .info := by
  have hsteps : catalog.asItems.entries.map (fun i => do
      return (Tokened.find? held (← i.tokenKey)).getD i) =
        (catalog.entries.map Item.info).map Except.ok := by
    show (catalog.entries.map Item.info).map _ = _
    rw [List.map_map, List.map_map]
    refine List.map_congr_left fun i hi => ?_
    show Except.ok ((Tokened.find? held (.text i.token)).getD (.info i)) = _
    rw [hown i hi]
    rfl
  obtain ⟨t, ht, hentries⟩ := NamedSet.exists_update_of_sublist settings
    (s := catalog.asItems.set) (List.Sublist.refl _)
  refine ⟨⟨.infos, t⟩, ?_, rfl, (NamedSet.containsName_updateSteps ht).1, hentries⟩
  rw [ItemSet.renameIfPresent, hheld]
  simp only [bind, Except.bind] at hsteps ⊢
  rw [hsteps, ItemSet.updateSteps, NamedSet.updateSteps_map_ok]
  show ((catalog.asItems.set.update settings catalog.asItems.set.entries).mapError _).map _ = _
  rw [ht]
  rfl

/-- Each entry is matched to itself where no token comes twice. -/
theorem mapM_matched? (h : (catalog.entries.map (·.token)).Nodup) :
    catalog.values.mapM (RenamedView.matched? (catalog.entries.map Info.tokened)) =
      .ok (catalog.entries.map (fun i => some (Item.info i, i.name))) := by
  rw [values, List.mapM_map]
  refine mapM_eq_ok_map fun i hi => ?_
  show Except.ok ((Tokened.find? (catalog.entries.map Info.tokened) (.text i.token)).map _) = _
  rw [find?_tokened h hi]
  rfl

end InfoSet

theorem MergedView.newName_eq (renames : List Tokened) (w : Tokened) :
    newName renames w = ((Tokened.find? renames w.token).getD w.item).name := by
  rw [newName]
  cases Tokened.find? renames w.token <;> rfl

/-! ## The views -/

namespace Provider

/-- A provider with the mode and the catalog of another one and with answers that agree with its
answers: to every name with any values a function of the same operation with the same values bound
to it, or a failure of the same kind. -/
structure Matches (v p : Provider σ) : Prop where
  mode : v.mode = p.mode
  kind : v.infos.kind = p.infos.kind
  infosMode : v.infos.mode = p.infos.mode
  entries : v.infos.entries = p.infos.entries
  resolveName : ∀ (settings : Settings) (n : Name) (vs : List Value) (context : Value)
    (m : Memory σ), Agree Value.BindsAlike (v.resolveName (.ofName n vs context) settings m).1
      (p.resolveName (.ofName n vs context) settings m).1

/-- The views of a provider that should change nothing: through its names as aliases, restricted to
its catalog, renamed by its catalog, and merged with its catalog or with no names at all. -/
def neutralViews (settings : Settings) (p : Provider σ) : List (Except Failure (Provider σ)) :=
  [ do return (← AliasView.make settings (← p.infos.aliasSet settings) p).provider,
    .ok (FilteredView.provider ⟨p, p.infos⟩),
    do return (← RenamedView.make settings (p.infos.entries.map .item) p).provider,
    do return (← MergedView.make settings (p.infos.entries.map .item) p).provider,
    do return (← MergedView.make settings [] p).provider ]

/-- A provider that advertises a catalog of infos, answers with functions, does not look at how a
name is written and does not know what it does not advertise. -/
structure Plain (p : Provider σ) (catalog : InfoSet) : Prop where
  infos : p.infos = catalog.asItems
  mode : catalog.mode = p.mode
  functional : p.Functional
  spelling : p.IgnoresSpelling
  unknown : p.KnowsOnlyAdvertised

variable {p : Provider σ} {catalog : InfoSet}

/-- A view that hands names in the catalog on and knows no others. -/
theorem Plain.matches_of_names (h : p.Plain catalog) {infos : ItemSet} {resolver : Resolver σ}
    {selecting : Value → Value → Resolution σ Value} (hkind : infos.kind = .infos)
    (hmode : infos.mode = catalog.mode) (hentries : infos.entries = catalog.entries.map .info)
    (hknown : ∀ (n : Name) (vs : List Value) (context : Value),
      catalog.asItems.set.containsName n.value = true →
      ∃ wrapped : Name, p.mode.fold wrapped.value = p.mode.fold n.value ∧
        (resolver (.ofName n vs context) = p.relabel wrapped (.ofName n vs context) ∨
          resolver (.ofName n vs context) = p.resolveName (.ofName wrapped vs context)))
    (hunknown : ∀ (n : Name) (vs : List Value) (context : Value),
      catalog.asItems.set.containsName n.value = false →
      resolver (.ofName n vs context) = .fail (.unknownName (.name n))) :
    Matches ⟨p.mode, infos, resolver, selecting⟩ p := by
  refine ⟨rfl, ?_, ?_, ?_, fun settings n vs context m => ?_⟩
  · rw [h.infos]
    exact hkind
  · rw [h.infos]
    exact hmode
  · rw [h.infos]
    exact hentries
  · show Agree _ (resolver (.ofName n vs context) settings m).1 _
    cases hn : catalog.asItems.set.containsName n.value with
    | false =>
      -- The view refuses the name, and the wrapped provider knows no name that it does not advertise.
      have hp : p.infos.set.containsName n.value = false := by
        rw [h.infos]
        exact hn
      rw [hunknown n vs context hn, h.unknown hp]
      exact .error rfl
    | true =>
      obtain ⟨wrapped, hfold, hrelabel | hforward⟩ := hknown n vs context hn
      -- It is asked for the name as its catalog writes it, or as the caller does.
      · rw [hrelabel]
        refine ((h.functional.bindsAlike_relabel wrapped n vs).trans (h.spelling hfold)).imp ?_
        rintro u w ⟨u', hu, hw⟩
        exact hu.trans hw
      · rw [hforward]
        exact h.spelling hfold

/-- The table in which a renaming view finds the names of the catalog, each for itself. -/
def Plain.table (p : Provider σ) (catalog : InfoSet) : NameTable :=
  .ofNames p.mode (catalog.entries.map (·.name))

/-- A name is found in the table exactly if the catalog has it. -/
theorem Plain.get?_table (h : p.Plain catalog) (n : Name) :
    (catalog.asItems.set.containsName n.value = true ∧ ∃ wrapped,
      (table p catalog).get? (p.mode.fold n.value) = some wrapped ∧
        p.mode.fold wrapped.value = p.mode.fold n.value) ∨
    (catalog.asItems.set.containsName n.value = false ∧
      (table p catalog).get? (p.mode.fold n.value) = none) := by
  have hnames : catalog.asItems.set.containsName n.value = true ↔
      p.mode.fold n.value ∈ (catalog.entries.map (·.name)).map (fun n => p.mode.fold n.value) := by
    rw [catalog.containsName_iff_mem, h.mode, List.map_map]
    rfl
  cases hget : (table p catalog).get? (p.mode.fold n.value) with
  | none =>
    have hnot := mt hnames.1 (NameTable.get?_eq_none_iff.1 hget)
    exact .inr ⟨by simpa using hnot, rfl⟩
  | some wrapped =>
    refine .inl ⟨hnames.2 ?_, wrapped, rfl, NameTable.fold_of_get hget⟩
    by_contra hnot
    rw [table, NameTable.get?_eq_none_iff.2 hnot] at hget
    cases hget

/-- A view that looks names up in this table and asks for what it finds there. -/
theorem Plain.matches_of_table (h : p.Plain catalog) {infos : ItemSet} {resolver : Resolver σ}
    {selecting : Value → Value → Resolution σ Value} (hkind : infos.kind = .infos)
    (hmode : infos.mode = catalog.mode) (hentries : infos.entries = catalog.entries.map .info)
    (hrenaming : Renaming p (table p catalog) resolver) :
    Matches ⟨p.mode, infos, resolver, selecting⟩ p := by
  refine h.matches_of_names hkind hmode hentries (fun n vs context hn => ?_)
    (fun n vs context hn => ?_)
  · obtain ⟨-, wrapped, hget, hfold⟩ | ⟨hnot, -⟩ := h.get?_table n
    · exact ⟨wrapped, hfold, .inl (hrenaming.found hget vs context)⟩
    · rw [hn] at hnot
      cases hnot
  · obtain ⟨hnot, -⟩ | ⟨-, hget⟩ := h.get?_table n
    · rw [hn] at hnot
      cases hnot
    · exact hrenaming.unknown hget vs context

theorem Plain.tokened_infos (h : p.Plain catalog) :
    p.infos.tokened = .ok (catalog.entries.map Info.tokened) := by
  rw [h.infos]
  show (catalog.entries.map Item.info).mapM Tokened.ofItem = _
  rw [List.mapM_map]
  exact mapM_eq_ok_map fun i _ => rfl

theorem Plain.map_item (h : p.Plain catalog) :
    p.infos.entries.map Value.item = catalog.values := by
  rw [h.infos]
  show (catalog.entries.map Item.info).map Value.item = _
  rw [List.map_map]
  rfl

/-- Every name of the catalog as an alias that forwards it. -/
theorem Plain.matches_aliasView (h : p.Plain catalog) (settings : Settings) :
    ∃ v : Provider σ, (do
      return (← AliasView.make settings (← p.infos.aliasSet settings) p).provider) = .ok v ∧
      v.Matches p := by
  obtain ⟨aliases, haliases, hmode, hentries⟩ := catalog.exists_aliasSet settings
  obtain ⟨t, ht, hkind, htmode, htentries⟩ := catalog.exists_merge settings hmode hentries
  rw [← h.infos] at haliases ht
  have hmake : AliasView.make settings aliases p = .ok ⟨aliases, p, t⟩ := by
    rw [AliasView.make, ht]
    rfl
  refine ⟨(AliasView.mk aliases p t).provider, ?_, ?_⟩
  · rw [haliases]
    show (AliasView.make settings aliases p >>= fun view => pure view.provider) = _
    rw [hmake]
    rfl
  · have hnames : ∀ text, aliases.set.containsName text = catalog.asItems.set.containsName text := by
      have hsame : aliases.set.mode = catalog.asItems.set.mode := hmode
      refine NamedSet.containsName_of_keys hsame ?_
      show aliases.entries.map Entry.key = (catalog.entries.map Item.info).map Entry.key
      rw [hentries, InfoSet.forwarding, List.map_map, List.map_map]
      rfl
    refine h.matches_of_names hkind htmode htentries (fun n vs context hn => ⟨n, rfl, .inr ?_⟩)
      (fun n vs context hn => ?_)
    · rw [← hnames] at hn
      obtain ⟨e, he⟩ := Option.isSome_iff_exists.1 hn
      have hforwards : e.target = .ok none := by
        have hmem : e ∈ aliases.entries := List.mem_of_find?_eq_some he
        rw [hentries] at hmem
        obtain ⟨i, -, rfl⟩ := List.mem_map.1 hmem
        rfl
      show (AliasView.mk aliases p t).resolveName _ = _
      exact AliasView.resolveName_of_forwarded he hforwards vs context
    · rw [← hnames] at hn
      have hnone : aliases.set.get? n.value = none :=
        Option.isNone_iff_eq_none.1 (Option.isSome_eq_false_iff.1 hn)
      show (AliasView.mk aliases p t).resolveName _ = _
      exact AliasView.resolveName_of_none hnone vs context

/-- The whole catalog as what is declared. -/
theorem Plain.matches_filteredView (h : p.Plain catalog) :
    (FilteredView.provider ⟨p, p.infos⟩).Matches p := by
  rw [h.infos]
  refine h.matches_of_names rfl rfl rfl (fun n vs context hn => ⟨n, rfl, .inr ?_⟩)
    (fun n vs context hn => ?_)
  · have hdeclares : (FilteredView.mk p catalog.asItems).declares n = true := hn
    exact FilteredView.resolveName_of_declares hdeclares vs context
  · have hdeclares : (FilteredView.mk p catalog.asItems).declares n = false := hn
    exact FilteredView.resolveName_of_not_declares hdeclares vs context

/-- Every entry renamed to itself. -/
theorem Plain.matches_renamedView (h : p.Plain catalog)
    (htokens : (catalog.entries.map (·.token)).Nodup) (settings : Settings) :
    ∃ v : Provider σ, (do
      return (← RenamedView.make settings (p.infos.entries.map .item) p).provider) = .ok v ∧
      v.Matches p := by
  obtain ⟨t, ht, hkind, htmode, htentries⟩ := catalog.exists_of_entries settings
  have hmatched := catalog.mapM_matched? htokens
  have hpairs : (catalog.entries.map (fun i => some (Item.info i, i.name))).filterMap id =
      catalog.entries.map (fun i => (Item.info i, i.name)) := by
    rw [List.filterMap_map]
    show catalog.entries.filterMap (some ∘ fun i => (Item.info i, i.name)) = _
    rw [List.filterMap_eq_map]
  have hinfos : (catalog.entries.map (fun i => (Item.info i, i.name))).map (·.1) =
      catalog.entries.map .info := by
    rw [List.map_map]
    rfl
  have htable : ((catalog.entries.map (fun i => (Item.info i, i.name))).map
      (fun q => (p.mode.fold q.1.name.value, q.2))).reverse = table p catalog := by
    rw [List.map_map, table, NameTable.ofNames, List.map_map]
    rfl
  have hmake : ∃ renames, RenamedView.make settings (p.infos.entries.map .item) p =
      .ok ⟨p, table p catalog, renames, t⟩ := by
    rw [RenamedView.make, h.tokened_infos, h.map_item]
    simp only [bind, Except.bind, hmatched, hpairs, hinfos, ← h.mode, ht, ← htable]
    exact ⟨_, rfl⟩
  obtain ⟨renames, hmake⟩ := hmake
  refine ⟨(RenamedView.mk p (table p catalog) renames t).provider, ?_, ?_⟩
  · rw [hmake]
    rfl
  · exact h.matches_of_table hkind htmode htentries
      (RenamedView.mk p (table p catalog) renames t).renaming

theorem Plain.table_of_newName (p : Provider σ) {held : List Tokened}
    (hown : ∀ i ∈ catalog.entries,
      (Tokened.find? held (.text i.token)).getD (.info i) = .info i) :
    ((catalog.entries.map Info.tokened).map (fun w =>
      (p.mode.fold (MergedView.newName held w).value, w.item.name))).reverse = table p catalog := by
  rw [List.map_map, table, NameTable.ofNames, List.map_map]
  refine congrArg List.reverse (List.map_congr_left fun i hi => ?_)
  have hname : MergedView.newName held i.tokened = i.name := by
    rw [MergedView.newName_eq]
    exact congrArg Item.name (hown i hi)
  show (p.mode.fold (MergedView.newName held i.tokened).value, i.name) = _
  rw [hname]
  rfl

/-- Entries replaced by names with which each entry keeps its own. -/
theorem Plain.matches_mergedView (h : p.Plain catalog) (settings : Settings) {renames : List Value}
    {held : List Tokened} (hheld : renames.mapM Tokened.ofValue = .ok held)
    (hown : ∀ i ∈ catalog.entries,
      (Tokened.find? held (.text i.token)).getD (.info i) = .info i) :
    ∃ v : Provider σ, (do return (← MergedView.make settings renames p).provider) = .ok v ∧
      v.Matches p := by
  obtain ⟨t, ht, hkind, htmode, htentries⟩ := catalog.exists_renameIfPresent settings hheld hown
  rw [← h.infos] at ht
  have htable := table_of_newName p hown
  have hmake : MergedView.make settings renames p = .ok ⟨p, table p catalog, t⟩ := by
    have hinfos : p.infos.kind = .infos := by
      rw [h.infos]
      rfl
    rw [MergedView.make, hheld, h.tokened_infos]
    simp only [bind, Except.bind, hinfos, ht, htable]
  refine ⟨(MergedView.mk p (table p catalog) t).provider, ?_, ?_⟩
  · rw [hmake]
    rfl
  · exact h.matches_of_table hkind htmode htentries (MergedView.mk p (table p catalog) t).renaming

theorem Assembled.plain [DecidableEq ι] {T : Selector → Prop} {Q : Stores ι → Prop}
    {leaves : ι → Leaf} {p : Provider (Stores ι)} (h : p.Assembled T Q leaves) {catalog : InfoSet}
    (hcatalog : p.infos = catalog.asItems) : p.Plain catalog where
  infos := hcatalog
  mode := by
    have hmode := h.composed.faithful.mode
    rwa [hcatalog] at hmode
  functional := h.functional
  spelling := h.ignoresSpelling
  unknown := h.composed.knowsOnlyAdvertised

/-- Neutral views change nothing. For a provider that is assembled of leaves by views and aggregates
and whose catalog has no token twice, the view through its own names, the view restricted to its
catalog and those renamed by its catalog or by no names at all can be built, and nothing is said
about its tokens. Each has the mode and the catalog of the provider, and to every name with any
values it gives a function of the same operation with the same values bound to it as the provider
does, or fails in the same way. -/
theorem Assembled.neutralViews_match [DecidableEq ι] {T : Selector → Prop} {Q : Stores ι → Prop}
    {leaves : ι → Leaf} {p : Provider (Stores ι)} (h : p.Assembled T Q leaves)
    (htokens : (p.infos.entries.map Item.tokenKey).Nodup) (settings : Settings) :
    RenamedView.warnings [] p.infos.entries = [] ∧
    ∀ x ∈ p.neutralViews settings, ∃ v, x = .ok v ∧ v.Matches p := by
  obtain ⟨catalog, hcatalog⟩ := h.hasCatalog
  replace htokens : (catalog.entries.map (·.token)).Nodup := by
    have hkeys : p.infos.entries.map Item.tokenKey =
        (catalog.entries.map (·.token)).map (fun token => .ok (.text token)) := by
      rw [hcatalog, List.map_map]
      show (catalog.entries.map Item.info).map Item.tokenKey = _
      rw [List.map_map]
      rfl
    rw [hkeys] at htokens
    exact htokens.of_map _
  have hp := h.plain hcatalog
  constructor
  · rw [hcatalog]
    exact @warnings_eq_nil catalog.entries [] htokens
  · have hheld : (p.infos.entries.map Value.item).mapM Tokened.ofValue =
        .ok (catalog.entries.map Info.tokened) := by
      rw [hp.map_item, InfoSet.values, List.mapM_map]
      exact mapM_eq_ok_map fun i _ => rfl
    intro x hx
    simp only [neutralViews, List.mem_cons, List.not_mem_nil, or_false] at hx
    rcases hx with rfl | rfl | rfl | rfl | rfl
    · exact hp.matches_aliasView settings
    · exact ⟨_, rfl, hp.matches_filteredView⟩
    · exact hp.matches_renamedView htokens settings
    · refine hp.matches_mergedView settings hheld fun i hi => ?_
      rw [find?_tokened htokens hi]
      rfl
    · have hheld : ([] : List Value).mapM Tokened.ofValue = .ok [] := rfl
      exact hp.matches_mergedView settings hheld fun i _ => rfl

/-- Views of a view of a leaf. -/
theorem neutralViews_relabelled :
    (relabelled.infos.entries.map Item.tokenKey).Nodup ∧
    (relabelled.resolveName (.ofName (echo "F" (by decide)).name [.int 1] .null) {}
      ⟨0, fun _ => []⟩).1.isOk = true ∧
    RenamedView.warnings [] relabelled.infos.entries = [] ∧
    ∀ x ∈ relabelled.neutralViews {}, ∃ v, x = .ok v ∧ v.Matches relabelled := by
  have htokens : (relabelled.infos.entries.map Item.tokenKey).Nodup := by
    have htexts : ((relabelled.infos.entries.map Item.tokenKey).map
        (fun key => key.toOption.bind Value.text?)).Nodup := by
      decide +kernel
    exact htexts.of_map _
  refine ⟨htokens, by decide +kernel, ?_⟩
  exact (assembled_relabelled (fun _ => True) (fun _ => True)).neutralViews_match htokens {}

end Provider

end FunctionCatalog
