import FunctionCatalog.Proofs.ItemSet.Infos
import FunctionCatalog.Proofs.Provider.Aliasing

/-
  FunctionCatalog: what a view through aliases advertises.
  A forwarded name is looked up in the wrapped catalog under the mode of that catalog, and what
  shows is the entry as the catalog writes its name. The alias set folds this name in its own mode.
  Where that tells apart what the catalog does not, the name that shows need not be one that the set
  claims, and may be that of another alias. `advertised_claimed_iff` says exactly when the view can
  be made and when it claims all that it advertises.
-/

namespace FunctionCatalog

variable {σ : Type} {settings : Settings} {aliases : AliasSet} {catalog : InfoSet} {i j : Info}

/-- Lifted entries are found under the names that they had. -/
theorem NamedSet.get?_lift {α β : Type} [Entry α] [Entry β] (f : α → β)
    (hf : ∀ a, Entry.name (f a) = Entry.name a) (s : NamedSet α) (text : String) :
    (s.lift f hf).get? text = (s.get? text).map f := by
  show (s.entries.map f).find? (fun e => Entry.key e == s.fold text) = _
  have hkey : (fun e => Entry.key e == s.fold text) ∘ f = fun e => Entry.key e == s.fold text := by
    funext e
    rw [Function.comp_apply, Entry.key, Entry.key, hf]
  rw [List.find?_map, hkey]
  rfl

/-! ## What an alias shows -/

/-- Whether tokens can start with the prefix: it has neither white space nor a separator. -/
def Settings.PrefixFits (settings : Settings) : Prop :=
  ∀ c ∈ settings.tokenPrefix.toList, Text.isBlank c = false ∧ c ∉ infoReserved

instance (settings : Settings) : Decidable settings.PrefixFits :=
  List.decidableBAll (fun c => Text.isBlank c = false ∧ c ∉ infoReserved) settings.tokenPrefix.toList

theorem isToken_infoReserved {cs : List Char} (h : isToken aliasReserved cs = true) :
    isToken infoReserved cs = true := by
  obtain ⟨hne, hcs⟩ := isToken_iff.1 h
  refine isToken_iff.2 ⟨hne, fun c hc => ⟨(hcs c hc).1, fun hmem => (hcs c hc).2 ?_⟩⟩
  obtain rfl := List.mem_singleton.1 hmem
  exact List.mem_cons_self

namespace Alias

variable {a b : Alias} {s : Selector}

/-- The token under which an alias of a target shows: its own, else that of the target, else one
made from its name. -/
def shownToken (settings : Settings) (catalog : InfoSet) (a : Alias) (s : Selector) : String :=
  a.token.getD (match catalog.get? s.name.value with
    | some i => i.token
    | none => settings.tokenPrefix ++ a.name.value)

/-- What an alias shows of a catalog. -/
def shownInfo? (settings : Settings) (catalog : InfoSet) (a : Alias) : Option Info :=
  match a.target with
  | none => catalog.get? a.name.value
  | some s => (Info.make a.name (a.shownToken settings catalog s)).toOption

theorem isToken_shownToken (catalog : InfoSet) (hpre : settings.PrefixFits)
    (hs : a.target = some s) :
    isToken infoReserved (a.shownToken settings catalog s).toList = true := by
  unfold shownToken
  cases htoken : a.token with
  | some token =>
    have hfits := a.fits_target
    rw [hs, htoken, fits, Bool.and_eq_true, Bool.and_eq_true] at hfits
    exact isToken_infoReserved hfits.1.2
  | none =>
    show isToken infoReserved (match catalog.get? s.name.value with
      | some i => i.token
      | none => settings.tokenPrefix ++ a.name.value).toList = true
    split
    · next i _ => exact i.isToken_token
    · have hname := isNamePart_of_isName a.name.isName_value
      rw [String.toList_append]
      refine isToken_iff.2 ⟨?_, fun c hc => ?_⟩
      · exact List.append_ne_nil_of_right_ne_nil _ (ne_nil_of_isName a.name.isName_value)
      · rcases List.mem_append.1 hc with hc | hc
        · exact hpre c hc
        · refine ⟨not_isBlank_of_isNamePart (hname c hc), fun hmem => ?_⟩
          obtain rfl := List.mem_singleton.1 hmem
          have hcomma := hname _ hc
          contradiction

theorem exists_shownInfo (catalog : InfoSet) (hpre : settings.PrefixFits)
    (hs : a.target = some s) :
    ∃ i, a.shownInfo? settings catalog = some i ∧
      Info.make a.name (a.shownToken settings catalog s) = .ok i ∧ i.name = a.name ∧
        i.token = a.shownToken settings catalog s := by
  have htoken := isToken_shownToken catalog hpre hs
  have hmake : Info.make a.name (a.shownToken settings catalog s) =
      .ok ⟨a.name, a.shownToken settings catalog s, htoken, .loose⟩ := dif_pos htoken
  refine ⟨_, ?_, hmake, rfl, rfl⟩
  unfold shownInfo?
  rw [hs]
  exact congrArg Except.toOption hmake

/-- What an alias shows as an entry of a set of items. -/
theorem shown_eq (hpre : settings.PrefixFits) (a : Alias) :
    ItemSet.shown? settings catalog.asItems.advertised? (.alias a) =
      .ok ((a.shownInfo? settings catalog).map .info) := by
  have hlookup : ∀ n : Name, catalog.asItems.advertised? n =
      .ok ((catalog.get? n.value).map .info) := fun n =>
    congrArg Except.ok (NamedSet.get?_lift Item.info (fun _ => rfl) catalog n.value)
  cases hs : a.target with
  | none =>
    have htarget : (Item.alias a).target = .ok none := congrArg Except.ok hs
    rw [ItemSet.shown_of_forwarded htarget, hlookup]
    unfold shownInfo?
    rw [hs]
    rfl
  | some s =>
    have htarget : (Item.alias a).target = .ok (some s) := congrArg Except.ok hs
    obtain ⟨i, hi, hmake, -⟩ := exists_shownInfo catalog hpre hs
    have hinfo : Item.makeInfo a.name (.text (a.shownToken settings catalog s)) =
        .ok (.info i) := by
      show (Failure.ofRejection (Info.make _ _)).map Item.info = _
      rw [hmake]
      rfl
    rw [hi, ItemSet.shown?, htarget]
    unfold shownToken at hinfo
    cases htoken : a.token with
    | some token =>
      have hown : (Item.alias a).token = .ok (.text token) := by
        rw [Item.token, htoken]
      rw [htoken] at hinfo
      simp only [bind, Except.bind, hown]
      exact congrArg (fun x => Except.map some x) hinfo
    | none =>
      have hown : (Item.alias a).token = .ok .null := by
        rw [Item.token, htoken]
      rw [htoken] at hinfo
      simp only [bind, Except.bind, hown, hlookup]
      cases hfound : catalog.get? s.name.value with
      | none =>
        rw [hfound] at hinfo
        exact congrArg (fun x => Except.map some x) hinfo
      | some j =>
        rw [hfound] at hinfo
        exact congrArg (fun x => Except.map some x) hinfo

end Alias

/-! ## What an alias set shows -/

namespace AliasSet
open Entry

variable (settings aliases catalog)

/-- What shows through the set. -/
def shown : List Info :=
  aliases.entries.filterMap (Alias.shownInfo? settings catalog)

/-- The set forwards a name, and this is what the catalog has under it. -/
def Forwards (i : Info) : Prop :=
  ∃ a ∈ aliases.entries, a.target = none ∧ catalog.get? a.name.value = some i

/-- No alias of another token has the name of a forwarded entry. -/
def Undisputed : Prop :=
  ∀ i, aliases.Forwards catalog i → ∀ b, aliases.get? i.name.value = some b →
    ∀ s, b.target = some s → b.shownToken settings catalog s = i.token

variable {settings aliases catalog}

theorem shown_cases (hi : i ∈ aliases.shown settings catalog) :
    aliases.Forwards catalog i ∨ ∃ b ∈ aliases.entries, ∃ s, b.target = some s ∧
      i.name = b.name ∧ i.token = b.shownToken settings catalog s := by
  obtain ⟨a, ha, hshown⟩ := List.mem_filterMap.1 hi
  unfold Alias.shownInfo? at hshown
  split at hshown
  · next htarget => exact .inl ⟨a, ha, htarget, hshown⟩
  · next s htarget =>
    refine .inr ⟨a, ha, s, htarget, ?_⟩
    unfold Info.make at hshown
    split at hshown
    · obtain rfl := Option.some.inj hshown
      exact ⟨rfl, rfl⟩
    · cases hshown

theorem Forwards.mem_shown (settings : Settings) (h : aliases.Forwards catalog i) :
    i ∈ aliases.shown settings catalog := by
  obtain ⟨a, ha, htarget, hget⟩ := h
  refine List.mem_filterMap.2 ⟨a, ha, ?_⟩
  unfold Alias.shownInfo?
  rw [htarget]
  exact hget

theorem exists_shown_of_target (catalog : InfoSet) (hpre : settings.PrefixFits) {b : Alias}
    (hb : b ∈ aliases.entries) {s : Selector} (hs : b.target = some s) :
    ∃ i ∈ aliases.shown settings catalog, i.name = b.name ∧
      i.token = b.shownToken settings catalog s := by
  obtain ⟨i, hi, -, hname, htoken⟩ := b.exists_shownInfo catalog hpre hs
  exact ⟨i, List.mem_filterMap.2 ⟨b, hb, hi⟩, hname, htoken⟩

theorem fold_of_mem {b : Alias} (hb : b ∈ aliases.entries) :
    key b = aliases.mode.fold b.name.value := by
  have hmode : b.name.mode = aliases.mode := aliases.mode_of_mem b hb
  show b.name.mode.fold b.name.value = _
  rw [hmode]

theorem get?_of_mem {b : Alias} {text : String} (hb : b ∈ aliases.entries)
    (hfold : aliases.mode.fold b.name.value = aliases.mode.fold text) :
    aliases.get? text = some b := by
  refine NamedSet.find?_eq_some_iff.2 ⟨hb, ?_⟩
  rw [fold_of_mem hb, hfold]
  rfl

/-- Forwarded entries whose names the set does not tell apart are one. -/
theorem Forwards.eq (hi : aliases.Forwards catalog i) (hj : aliases.Forwards catalog j)
    (hfold : aliases.mode.fold i.name.value = aliases.mode.fold j.name.value) : i = j := by
  obtain ⟨a, ha, -, hgeti⟩ := hi
  obtain ⟨b, hb, -, hgetj⟩ := hj
  have hname := NamedSet.fold_of_get rfl hgeti
  have hname' := NamedSet.fold_of_get rfl hgetj
  cases hmode : catalog.mode with
  | sensitive =>
    -- the catalog has the names as the aliases write them, so the aliases are one
    rw [hmode] at hname hname'
    change i.name.value = a.name.value at hname
    change j.name.value = b.name.value at hname'
    rw [hname, hname', ← fold_of_mem ha, ← fold_of_mem hb] at hfold
    obtain rfl := aliases.ascending.eq_of_key ha hb hfold
    exact Option.some.inj (hgeti.symm.trans hgetj)
  | insensitive =>
    -- the catalog tells apart no more than the set does
    have hlower : catalog.mode.fold i.name.value = catalog.mode.fold j.name.value := by
      rw [hmode]
      cases hset : aliases.mode with
      | sensitive =>
        rw [hset] at hfold
        exact congrArg Text.lower hfold
      | insensitive =>
        rw [hset] at hfold
        exact hfold
    have himem := List.mem_of_find?_eq_some hgeti
    have hjmem := List.mem_of_find?_eq_some hgetj
    have hkey : ∀ k ∈ catalog.entries, key k = catalog.mode.fold k.name.value := fun k hk =>
      congrArg (fun m => CaseMode.fold m k.name.value) (catalog.mode_of_mem k hk)
    exact catalog.ascending.eq_of_key himem hjmem (by rw [hkey i himem, hkey j hjmem, hlower])

/-- What shows agrees on tokens exactly if no alias disputes a forwarded name. -/
theorem agree_shown_iff (hpre : settings.PrefixFits) :
    NamedSet.Agree aliases.mode (aliases.shown settings catalog) ↔
      aliases.Undisputed settings catalog := by
  constructor
  · intro hagree i hi b hget s hs
    have hb := List.mem_of_find?_eq_some hget
    obtain ⟨k, hk, hname, htoken⟩ := exists_shown_of_target catalog hpre hb hs
    rw [← htoken]
    refine hagree k hk i (hi.mem_shown settings) ?_
    rw [hname, ← fold_of_mem hb]
    exact (NamedSet.find?_eq_some_iff.1 hget).2
  · intro hundisputed i hi j hj hfold
    rcases shown_cases hi with hi | ⟨b, hb, s, hs, hname, htoken⟩
    · rcases shown_cases hj with hj | ⟨b, hb, s, hs, hname, htoken⟩
      · rw [hi.eq hj hfold]
      · rw [htoken]
        exact (hundisputed i hi b (get?_of_mem hb (by rw [← hname, hfold])) s hs).symm
    · rcases shown_cases hj with hj | ⟨b', hb', s', hs', hname', htoken'⟩
      · rw [htoken]
        exact hundisputed j hj b (get?_of_mem hb (by rw [← hname, hfold])) s hs
      · rw [hname, hname', ← fold_of_mem hb, ← fold_of_mem hb'] at hfold
        obtain rfl := aliases.ascending.eq_of_key hb hb' hfold
        obtain rfl := Option.some.inj (hs.symm.trans hs')
        rw [htoken, htoken']

/-- Only forwarded names need not have the mode of the set. -/
theorem canTake_shown_iff :
    (∀ i ∈ aliases.shown settings catalog, i.name.CanTake settings aliases.mode) ↔
      ∀ i, aliases.Forwards catalog i → i.name.CanTake settings aliases.mode := by
  refine ⟨fun h i hi => h i (hi.mem_shown settings), fun h i hi => ?_⟩
  rcases shown_cases hi with hi | ⟨b, hb, -, -, hname, -⟩
  · exact h i hi
  · left
    rw [hname]
    exact aliases.mode_of_mem b hb

/-- Where the set tells apart no more than the catalog does, a forwarded entry stands under the name
that forwards it. -/
theorem Forwards.get?_eq (h : aliases.Forwards catalog i)
    (hmode : aliases.mode = .insensitive ∨ catalog.mode = .sensitive) :
    ∃ a, aliases.get? i.name.value = some a ∧ a.target = none := by
  obtain ⟨a, ha, htarget, hget⟩ := h
  refine ⟨a, get?_of_mem ha ?_, htarget⟩
  have hname := NamedSet.fold_of_get rfl hget
  rcases hmode with hmode | hmode
  · rw [hmode]
    cases hcatalog : catalog.mode with
    | sensitive =>
      rw [hcatalog] at hname
      exact congrArg Text.lower hname.symm
    | insensitive =>
      rw [hcatalog] at hname
      exact hname.symm
  · rw [hmode] at hname
    exact congrArg aliases.mode.fold hname.symm

theorem claim_eq (n : Name) :
    aliases.asItems.claim (.name n) = .ok .unclaimed ↔ aliases.containsName n.value = false := by
  have hlookup : aliases.asItems.lookup (.name n) =
      .ok ((aliases.get? n.value).map .alias) := by
    rw [ItemSet.lookup_name]
    exact congrArg Except.ok (NamedSet.get?_lift Item.alias (fun _ => rfl) aliases n.value)
  rw [ItemSet.claim, hlookup, NamedSet.containsName]
  cases aliases.get? n.value with
  | none => exact iff_of_true rfl rfl
  | some a =>
    refine iff_of_false (fun h => ?_) (by simp)
    have hclaim : (if a.target.isNone then AliasClaim.passThrough else .alias) = .unclaimed :=
      Except.ok.inj h
    cases hs : a.target with
    | none =>
      rw [hs] at hclaim
      cases hclaim
    | some s =>
      rw [hs] at hclaim
      cases hclaim

/-- What is merged is the set of what shows. -/
theorem merge_eq (hpre : settings.PrefixFits) :
    aliases.asItems.merge settings catalog.asItems.advertised? =
      (Failure.ofRejection (NamedSet.of settings aliases.mode
        ((aliases.shown settings catalog).map .info))).map (fun t => ⟨.infos, t⟩) := by
  have hmapM : aliases.asItems.entries.mapM
      (ItemSet.shown? settings catalog.asItems.advertised?) =
        .ok (aliases.entries.map (fun a => (a.shownInfo? settings catalog).map .info)) := by
    show (aliases.entries.map Item.alias).mapM _ = _
    rw [List.mapM_map]
    exact mapM_eq_ok_map fun a _ => a.shown_eq hpre
  have hshown : (aliases.entries.map (fun a =>
      (a.shownInfo? settings catalog).map Item.info)).filterMap id =
        (aliases.shown settings catalog).map .info := by
    rw [List.filterMap_map, shown, List.map_filterMap]
    rfl
  rw [ItemSet.merge, hmapM]
  show ItemSet.of settings .infos aliases.mode (List.filterMap id _) = _
  rw [hshown, ItemSet.of]

end AliasSet

/-! ## The view -/

namespace AliasView

variable {inner : Provider σ}

/-- The view shows the set of what shows through its aliases. -/
theorem make_eq (hpre : settings.PrefixFits) (hcatalog : inner.infos = catalog.asItems) :
    make settings aliases.asItems inner =
      (Failure.ofRejection (NamedSet.of settings aliases.mode
        ((aliases.shown settings catalog).map .info))).map
          (fun t => ⟨aliases.asItems, inner, ⟨.infos, t⟩⟩) := by
  rw [make, hcatalog, AliasSet.merge_eq hpre]
  cases NamedSet.of settings aliases.mode ((aliases.shown settings catalog).map Item.info) <;> rfl

theorem exists_of_make (hpre : settings.PrefixFits) (hcatalog : inner.infos = catalog.asItems)
    {view : AliasView σ} (h : make settings aliases.asItems inner = .ok view) :
    ∃ t, NamedSet.of settings aliases.mode ((aliases.shown settings catalog).map .info) = .ok t ∧
      view = ⟨aliases.asItems, inner, ⟨.infos, t⟩⟩ := by
  rw [make_eq hpre hcatalog] at h
  obtain ⟨t, ht, rfl⟩ := exists_of_map_ok h
  exact ⟨t, ok_of_mapError_ok ht, rfl⟩

theorem exists_make_iff (hpre : settings.PrefixFits) (hcatalog : inner.infos = catalog.asItems) :
    (∃ view, make settings aliases.asItems inner = .ok view) ↔
      (∀ i, aliases.Forwards catalog i → i.name.CanTake settings aliases.mode) ∧
        aliases.Undisputed settings catalog := by
  rw [← AliasSet.canTake_shown_iff, ← AliasSet.agree_shown_iff hpre,
    ← NamedSet.exists_of_infos_iff]
  constructor
  · rintro ⟨view, hview⟩
    obtain ⟨t, ht, -⟩ := exists_of_make hpre hcatalog hview
    exact ⟨t, ht⟩
  · rintro ⟨t, ht⟩
    refine ⟨⟨aliases.asItems, inner, ⟨.infos, t⟩⟩, ?_⟩
    rw [make_eq hpre hcatalog, ht]
    rfl

theorem make_duplicates_iff (hpre : settings.PrefixFits)
    (hcatalog : inner.infos = catalog.asItems) :
    (∃ names, make settings aliases.asItems inner = .error (.rejection (.duplicateNames names))) ↔
      (∀ i, aliases.Forwards catalog i → i.name.CanTake settings aliases.mode) ∧
        ¬ aliases.Undisputed settings catalog := by
  rw [← AliasSet.canTake_shown_iff, ← AliasSet.agree_shown_iff hpre,
    ← NamedSet.duplicates_of_infos_iff, make_eq hpre hcatalog]
  refine exists_congr fun names => ?_
  cases NamedSet.of settings aliases.mode ((aliases.shown settings catalog).map Item.info) with
  | ok t => exact iff_of_false (fun h => nomatch h) (fun h => nomatch h)
  | error r =>
    show Except.error (Failure.rejection r) = _ ↔ _
    rw [Except.error.injEq, Except.error.injEq, Failure.rejection.injEq]

/-- The view claims all that it advertises if the set has the names of what it forwards as the
catalog writes them. -/
theorem claimed_iff (hpre : settings.PrefixFits) (hcatalog : inner.infos = catalog.asItems)
    {view : AliasView σ} (h : make settings aliases.asItems inner = .ok view) :
    (∀ e ∈ view.infos.entries, aliases.asItems.claim (.name e.name) ≠ .ok .unclaimed) ↔
      ∀ i, aliases.Forwards catalog i → aliases.containsName i.name.value = true := by
  obtain ⟨t, ht, rfl⟩ := exists_of_make hpre hcatalog h
  constructor
  · intro hclaimed i hi
    obtain ⟨j, hj, hkey, -⟩ := NamedSet.shows_of ht (hi.mem_shown settings)
    have hj' := hclaimed _ hj
    rw [ne_eq, AliasSet.claim_eq, Bool.not_eq_false] at hj'
    refine NamedSet.containsName_of_fold rfl ?_ hj'
    have hmode : t.mode = aliases.mode := (NamedSet.exists_converted_of ht).1
    have hfold : Entry.key (Item.info j) = t.mode.fold j.name.value :=
      (ItemSet.fold_of_mem (s := ⟨.infos, t⟩) hj).1
    rw [← hkey, hfold, hmode]
    rfl
  · intro hnames e he
    obtain ⟨i, hi, rfl⟩ := NamedSet.exists_of_mem_infos ht he
    have hvalue : (Item.info (i.inMode aliases.mode)).name.value = i.name.value :=
      (i.inMode_eq aliases.mode).1
    rw [ne_eq, AliasSet.claim_eq, Bool.not_eq_false, hvalue]
    rcases AliasSet.shown_cases hi with hi | ⟨b, hb, -, -, hname, -⟩
    · exact hnames i hi
    · rw [hname, NamedSet.containsName, AliasSet.get?_of_mem hb rfl]
      rfl

/-- What is claimed is handed on where no values come with it, and nothing else is. -/
theorem resolveName_of_claim {view : AliasView σ}
    (h : make settings aliases.asItems inner = .ok view) (n : Name) (context : Value) :
    (aliases.asItems.claim (.name n) ≠ .ok .unclaimed →
      view.resolveName (.ofName n [] context) = inner.resolveName (.ofName n [] context) ∨
        ∃ s, view.resolveName (.ofName n [] context) =
          inner.resolveSelector (.item (.selector s)) context) ∧
    (aliases.asItems.claim (.name n) = .ok .unclaimed →
      view.resolveName (.ofName n [] context) = .fail (.unknownName (.name n))) := by
  obtain ⟨haliases, rfl, htargets⟩ := eq_of_make h
  have hget : view.aliases.set.get? n.value = (aliases.get? n.value).map .alias := by
    rw [haliases]
    exact NamedSet.get?_lift Item.alias (fun _ => rfl) aliases n.value
  rw [ne_eq, AliasSet.claim_eq, Bool.not_eq_false, NamedSet.containsName]
  cases hentry : aliases.get? n.value with
  | none =>
    rw [hentry] at hget
    refine ⟨fun h => ?_, fun _ => resolveName_of_none hget [] context⟩
    cases h
  | some a =>
    rw [hentry] at hget
    refine ⟨fun _ => ?_, fun h => by cases h⟩
    cases hs : a.target with
    | none => exact .inl (resolveName_of_forwarded hget (congrArg Except.ok hs) [] context)
    | some s => exact .inr ⟨s, resolveName_of_target hget (congrArg Except.ok hs) context⟩

/-- A view is made, unless a name must take the mode of the set and is too long, if no alias of
another token has the name of a forwarded entry of the catalog, and is refused for its names
otherwise. A view that is made claims all that it advertises exactly if the set has the names of all
these entries. Both always hold if the set ignores case or the catalog does not. A claimed name
without values is handed on to the wrapped provider, and any other name is unknown. -/
theorem advertised_claimed_iff (hpre : settings.PrefixFits)
    (hcatalog : inner.infos = catalog.asItems) :
    ((∃ view, make settings aliases.asItems inner = .ok view) ↔
      (∀ i, aliases.Forwards catalog i → i.name.CanTake settings aliases.mode) ∧
        aliases.Undisputed settings catalog) ∧
    ((∃ names, make settings aliases.asItems inner =
        .error (.rejection (.duplicateNames names))) ↔
      (∀ i, aliases.Forwards catalog i → i.name.CanTake settings aliases.mode) ∧
        ¬ aliases.Undisputed settings catalog) ∧
    (∀ view, make settings aliases.asItems inner = .ok view →
      ((∀ e ∈ view.infos.entries, aliases.asItems.claim (.name e.name) ≠ .ok .unclaimed) ↔
        ∀ i, aliases.Forwards catalog i → aliases.containsName i.name.value = true) ∧
      ∀ n context, (aliases.asItems.claim (.name n) ≠ .ok .unclaimed →
          view.resolveName (.ofName n [] context) = inner.resolveName (.ofName n [] context) ∨
            ∃ s, view.resolveName (.ofName n [] context) =
              inner.resolveSelector (.item (.selector s)) context) ∧
        (aliases.asItems.claim (.name n) = .ok .unclaimed →
          view.resolveName (.ofName n [] context) = .fail (.unknownName (.name n)))) ∧
    (aliases.mode = .insensitive ∨ catalog.mode = .sensitive →
      aliases.Undisputed settings catalog ∧
        ∀ i, aliases.Forwards catalog i → aliases.containsName i.name.value = true) := by
  refine ⟨exists_make_iff hpre hcatalog, make_duplicates_iff hpre hcatalog,
    fun view hview => ⟨claimed_iff hpre hcatalog hview, resolveName_of_claim hview⟩,
    fun hmode => ⟨fun i hi b hget s hs => ?_, fun i hi => ?_⟩⟩
  · obtain ⟨a, ha, htarget⟩ := hi.get?_eq hmode
    obtain rfl := Option.some.inj (ha.symm.trans hget)
    rw [htarget] at hs
    cases hs
  · obtain ⟨a, ha, -⟩ := hi.get?_eq hmode
    rw [NamedSet.containsName, ha]
    rfl

/-! ## A catalog that ignores case -/

/-- Two names of which one is written in capitals. -/
def capitals : InfoSet :=
  Aggregate.pairCatalog .insensitive
    (Aggregate.letter .insensitive "ABS" "u/ABS" (Eq.refl true) (Eq.refl true))
    (Aggregate.letter .insensitive "max" "u/max" (Eq.refl true) (Eq.refl true)) rfl rfl (by decide)

/-- Advertises them and answers any call with its name. -/
def shouting : Provider Unit :=
  .ofNames .insensitive capitals.asItems (fun call => pure call.name)

/-- Forwards a name that the catalog has in capitals. -/
def lowered : AliasSet where
  mode := .sensitive
  entries := [.passThrough (Aggregate.letter .sensitive "abs" "u" (Eq.refl true) (Eq.refl true)).name]
  mode_of_mem := fun e he => by
    rw [List.mem_singleton.1 he]
    rfl
  ascending := List.pairwise_singleton _ _

/-- Its view of that catalog. -/
def loweredView : AliasView Unit :=
  (make {} lowered.asItems shouting).toOption.getD ⟨lowered.asItems, shouting, shouting.infos⟩

theorem make_lowered : make {} lowered.asItems shouting = .ok loweredView :=
  eq_ok_of_isOk (by decide +kernel) _

/-- The view advertises the name in capitals, which the set does not claim and the view does not
know. -/
theorem capitals_are_unclaimed :
    make {} lowered.asItems shouting = .ok loweredView ∧ shouting.mode = .insensitive ∧
      ∃ e ∈ loweredView.infos.entries, e.name.value = "ABS" ∧
        lowered.asItems.claim (.name e.name) = .ok .unclaimed ∧
        loweredView.resolveName (.ofName e.name [] .null) = .fail (.unknownName (.name e.name)) := by
  have hhead : loweredView.infos.entries.head?.map (fun e => e.name.value) = some "ABS" := by
    decide +kernel
  obtain ⟨e, he, hvalue⟩ := Option.map_eq_some_iff.1 hhead
  have hunclaimed : lowered.asItems.claim (.name e.name) = .ok .unclaimed := by
    rw [AliasSet.claim_eq, hvalue]
    decide +kernel
  exact ⟨make_lowered, rfl, e, List.mem_of_head? he, hvalue, hunclaimed,
    (resolveName_of_claim make_lowered e.name .null).2 hunclaimed⟩

theorem advertised_claimed_iff_lowered :
    Settings.PrefixFits {} ∧ shouting.infos = capitals.asItems ∧
      ((∃ view, make {} lowered.asItems shouting = .ok view) ↔
        (∀ i, lowered.Forwards capitals i → i.name.CanTake {} lowered.mode) ∧
          lowered.Undisputed {} capitals) ∧
      ((∃ names, make {} lowered.asItems shouting =
          .error (.rejection (.duplicateNames names))) ↔
        (∀ i, lowered.Forwards capitals i → i.name.CanTake {} lowered.mode) ∧
          ¬ lowered.Undisputed {} capitals) ∧
      ∀ view, make {} lowered.asItems shouting = .ok view →
        ((∀ e ∈ view.infos.entries, lowered.asItems.claim (.name e.name) ≠ .ok .unclaimed) ↔
          ∀ i, lowered.Forwards capitals i → lowered.containsName i.name.value = true) := by
  have hpre : Settings.PrefixFits {} := by
    decide
  obtain ⟨hmade, hduplicates, hview, -⟩ := advertised_claimed_iff hpre
    (show shouting.infos = capitals.asItems from rfl)
  exact ⟨hpre, rfl, hmade, hduplicates, fun view h => (hview view h).1⟩

end AliasView

end FunctionCatalog
