import FunctionCatalog.Proofs.Aggregate.Construction
import FunctionCatalog.Proofs.ItemSet.Names
import FunctionCatalog.Proofs.Provider.Aliasing
import FunctionCatalog.Proofs.Provider.Binding
import FunctionCatalog.Proofs.Provider.Filtering

/-
  FunctionCatalog: no hidden functions.
  Each kind of provider looks names up in one table and advertises another. However they are nested,
  what is found in the first is in the second (`Within`), so a composition resolves no name and no
  tree with a name that its catalog has not (`Composed.advertises`).
-/

namespace FunctionCatalog

variable {σ τ : Type} {settings : Settings} {context : Value}

/-! ## Answers within a catalog -/

/-- A resolver answers for no name that a catalog has not. -/
def Resolver.Within (resolver : Resolver σ) (infos : ItemSet) : Prop :=
  ∀ ⦃settings : Settings⦄ ⦃n : Name⦄ ⦃vs : List Value⦄ ⦃context : Value⦄ ⦃m : Memory σ⦄ ⦃v : Value⦄,
    (resolver (.ofName n vs context) settings m).1 = .ok v → infos.set.containsName n.value = true

/-- The parameters of a selector can be read, and a catalog has every name of its tree. -/
def Selector.Within (settings : Settings) (s : Selector) (infos : ItemSet) : Prop :=
  ∃ ps, s.parameters settings = .ok ps ∧
    ∀ n ∈ (Parameter.call s ps).names, infos.set.containsName n.value = true

/-- A tree is only answered when each of its names is. -/
theorem Resolver.Within.evaluate {resolver : Resolver σ} {infos : ItemSet}
    (h : resolver.Within infos) {s : Selector} {m : Memory σ} {v : Value}
    (heval : (s.evaluate resolver context settings m).1 = .ok v) : s.Within settings infos := by
  cases hps : s.parameters settings with
  | error e =>
    rw [Selector.evaluate_of_error hps] at heval
    cases heval
  | ok ps =>
    obtain ⟨t, failure, m₁, ht, htakes, houtcome⟩ :=
      Selector.exists_takes_evaluate resolver hps context m
    have hnone : failure = none := by
      cases failure with
      | none => rfl
      | some e =>
        rw [houtcome] at heval
        cases heval
    subst hnone
    refine ⟨ps, hps, fun n hn => ?_⟩
    have hmem : Value.name n ∈ (t.calls context).map (·.1.name) := by
      rw [Answered.names_calls, ht]
      exact List.mem_map_of_mem hn
    obtain ⟨x, hx, hname⟩ := List.mem_map.1 hmem
    obtain ⟨n', vs, hcall⟩ := Answered.exists_ofName_of_mem_calls t hx
    obtain ⟨m₂, m₃, hanswer⟩ := htakes.exists_answered x hx
    rw [hcall] at hname hanswer
    obtain rfl : n' = n := Value.name.inj hname
    exact h (congrArg Prod.fst hanswer)

namespace Provider

/-- A provider that is open about what it resolves: its catalog compares names as it does and has
every name that it answers for, alone or in a tree. -/
structure Faithful (p : Provider σ) : Prop where
  mode : p.infos.mode = p.mode
  name : Resolver.Within p.resolveName p.infos
  selector : ∀ {settings : Settings} {s : Selector} {context : Value} {m : Memory σ} {v : Value},
    (p.resolveSelector (.item (.selector s)) context settings m).1 = .ok v →
    s.Within settings p.infos

theorem Faithful.ofNames {mode : CaseMode} {infos : ItemSet} {resolver : Resolver σ}
    (hmode : infos.mode = mode) (h : resolver.Within infos) :
    (ofNames mode infos resolver).Faithful where
  mode := hmode
  name := h
  selector heval := h.evaluate heval

theorem Faithful.zoom {p : Provider σ} (h : p.Faithful) (get : τ → σ) (set : σ → τ → τ) :
    (p.zoom get set).Faithful where
  mode := h.mode
  name _ _ _ _ _ _ heq := h.name heq
  selector heq := h.selector heq

theorem Faithful.empty (mode : CaseMode) : (empty mode : Provider σ).Faithful where
  mode := rfl
  name _ _ _ _ _ _ h := by cases h
  selector h := by cases h

/-- Numbering the catalog changes none of its names. -/
theorem Faithful.numbered {p : Provider σ} (h : p.Faithful) (next : Nat) :
    Faithful { p with infos := (p.infos.settle.run next).1 } := by
  obtain ⟨hmode, hnames⟩ := p.infos.containsName_settle next
  refine ⟨hmode.trans h.mode, ?_, ?_⟩
  · intro settings n vs context m v heq
    rw [hnames]
    exact h.name heq
  · intro settings s context m v heq
    obtain ⟨ps, hps, hall⟩ := h.selector heq
    refine ⟨ps, hps, fun n hn => ?_⟩
    rw [hnames]
    exact hall n hn

end Provider

/-! ## Leaves -/

section Leaf

variable {mode : CaseMode} {url : String} {functions : List Value} {leaf : Leaf}

theorem Leaf.mode_of_functionsOf {items : List Item}
    (h : functionsOf settings mode functions = .ok items) : ∀ f ∈ items, f.name.mode = mode := by
  unfold functionsOf at h
  split at h
  · cases h
  · intro f hf
    obtain ⟨v, -, hv⟩ := exists_of_mem_mapM h f hf
    obtain ⟨i, -, hi⟩ := exists_of_bind_ok hv
    exact Item.mode_of_withMode (ok_of_mapError_ok hi)

theorem Leaf.name_of_info {n : Name} {i : Info} (h : info url n = .ok i) : i.name = n := by
  unfold info Info.make at h
  split at h <;> cases h
  rfl

/-- A leaf advertises each of its functions. -/
theorem Leaf.faithful_of_make (h : make settings mode url functions = .ok leaf) :
    leaf.provider.Faithful := by
  obtain ⟨items, hitems, h⟩ := exists_of_bind_ok h
  split at h
  · obtain ⟨infos, hinfos, h⟩ := exists_of_bind_ok h
    obtain ⟨catalog, hcatalog, h⟩ := exists_of_bind_ok h
    obtain rfl := Except.ok.inj h
    have hof := ok_of_mapError_ok hcatalog
    have hmode : catalog.mode = mode := (NamedSet.exists_converted_of hof).1
    refine .ofNames hmode ?_
    intro settings n vs context m v hv
    cases hfind : function? ⟨mode, items.map (fun f => (f.name.key, f)), catalog⟩
        (mode.fold n.value) with
    | none =>
      rw [resolveName_of_none hfind] at hv
      cases hv
    | some item =>
      obtain ⟨e, he, -⟩ := Option.map_eq_some_iff.1 hfind
      obtain ⟨f, hf, rfl⟩ := List.mem_map.1 (List.mem_of_find?_eq_some he)
      have hkey : f.name.key = mode.fold n.value := by simpa using List.find?_some he
      obtain ⟨i, hi, hinfo⟩ := exists_of_mapM_ok (ok_of_mapError_ok hinfos) f hf
      have hname : mode.fold i.name.value = mode.fold n.value := by
        rw [← hkey, name_of_info hinfo, Name.key, mode_of_functionsOf hitems f hf]
      rw [ItemSet.containsName_asItems]
      exact NamedSet.containsName_of_fold hmode hname (NamedSet.containsName_of hof hi)
  · cases h

end Leaf

/-! ## Views -/

section View

variable {aliases infos : ItemSet} {inner : Provider σ}

/-- A forwarded name is shown if the wrapped provider has it, and any other alias always. -/
theorem AliasView.containsName_of_entry {view : AliasView σ} {n : Name} {i : Item}
    (h : make settings aliases inner = .ok view) (hmode : aliases.mode = inner.mode)
    (hinner : inner.infos.mode = inner.mode) (hentry : view.aliases.set.get? n.value = some i)
    (hforwarded : i.target = .ok none → inner.infos.set.containsName n.value = true) :
    view.infos.set.containsName n.value = true := by
  obtain ⟨rfl, rfl, htargets⟩ := eq_of_make h
  obtain ⟨infos, hmerge, hview⟩ := exists_of_bind_ok h
  obtain rfl : infos = view.infos := congrArg AliasView.infos (Except.ok.inj hview)
  obtain ⟨hinfos, hshown⟩ := ItemSet.containsName_merge hmerge
  have hi : i ∈ view.aliases.entries := List.mem_of_find?_eq_some hentry
  have hname : view.aliases.mode.fold i.name.value = view.aliases.mode.fold n.value :=
    NamedSet.fold_of_get rfl hentry
  obtain ⟨found, hfound, hnames⟩ := hshown i hi
  obtain ⟨t, ht⟩ := htargets i hi
  cases t with
  | none =>
    have hsame : view.inner.infos.mode = view.aliases.mode := hinner.trans hmode.symm
    obtain ⟨j, hj⟩ := Option.isSome_iff_exists.1
      (NamedSet.containsName_of_fold hsame hname.symm (hforwarded ht))
    have hadvertised : view.inner.infos.advertised? i.name = .ok (some j) := congrArg Except.ok hj
    rw [ItemSet.shown_of_forwarded ht, hadvertised] at hfound
    obtain rfl := Except.ok.inj hfound
    exact NamedSet.containsName_of_fold hinfos ((NamedSet.fold_of_get hsame hj).trans hname)
      (hnames j rfl)
  | some s =>
    obtain ⟨j, rfl, hjname⟩ := ItemSet.name_of_shown ht hfound
    rw [← hjname] at hname
    exact NamedSet.containsName_of_fold hinfos hname (hnames j rfl)

theorem AliasView.faithful_of_make {view : AliasView σ} (h : make settings aliases inner = .ok view)
    (hmode : aliases.mode = inner.mode) (hinner : inner.Faithful) : view.provider.Faithful := by
  obtain ⟨haliases, heq, htargets⟩ := eq_of_make h
  obtain ⟨infos, hmerge, hview⟩ := exists_of_bind_ok h
  obtain rfl : infos = view.infos := congrArg AliasView.infos (Except.ok.inj hview)
  refine .ofNames ((ItemSet.containsName_merge hmerge).1.trans (hmode.trans (by rw [heq]))) ?_
  intro settings' n vs context m v hv
  cases hentry : view.aliases.set.get? n.value with
  | none =>
    rw [resolveName_of_none hentry] at hv
    cases hv
  | some i =>
    refine containsName_of_entry h hmode hinner.mode hentry fun htarget => ?_
    rw [resolveName_of_forwarded hentry htarget, heq] at hv
    exact hinner.name hv

/-- Nothing is asked for that is not declared. -/
theorem FilteredView.faithful (inner : Provider σ) (hmode : infos.mode = inner.mode) :
    (FilteredView.mk inner infos).provider.Faithful := by
  have hwithin : (FilteredView.mk inner infos).resolveName.Within infos := by
    intro settings n vs context m v hv
    by_cases hdeclares : (FilteredView.mk inner infos).declares n = true
    · exact hdeclares
    · rw [resolveName_of_not_declares (by simpa using hdeclares)] at hv
      cases hv
  refine ⟨hmode, hwithin, ?_⟩
  intro settings s context m v hv
  rw [provider_resolveSelector, resolveSelector_selector] at hv
  split at hv
  · exact hwithin.evaluate hv
  · cases hv

theorem NameTable.mem_of_get {t : NameTable} {key : String} {n : Name}
    (h : t.get? key = some n) : (key, n) ∈ t := by
  obtain ⟨e, he, rfl⟩ := Option.map_eq_some_iff.1 h
  have hkey : e.1 = key := by simpa using List.find?_some he
  rw [← hkey]
  exact List.mem_of_find?_eq_some he

theorem RenamedView.resolveName_of_none {view : RenamedView σ} {n : Name}
    (h : view.wrapped? n.value = none) (vs : List Value) (context : Value) :
    view.resolveName (.ofName n vs context) = .fail (.unknown (.name n)) := by
  simp only [resolveName, Call.ofName, Provider.nameText_name, pure_bind, h]

/-- The names that are matched are those that are advertised. -/
theorem RenamedView.containsName_of_wrapped {infos : List Value} {view : RenamedView σ} {n : Name}
    (h : make settings infos inner = .ok view) (hget : (view.wrapped? n.value).isSome = true) :
    view.infos.set.containsName n.value = true := by
  obtain ⟨wrapped, -, h⟩ := exists_of_bind_ok h
  obtain ⟨found, -, h⟩ := exists_of_bind_ok h
  obtain ⟨visible, hvisible, h⟩ := exists_of_bind_ok h
  obtain rfl := Except.ok.inj h
  obtain ⟨hmode, hnames⟩ := ItemSet.containsName_of hvisible
  obtain ⟨original, hget⟩ := Option.isSome_iff_exists.1 hget
  obtain ⟨p, hp, hentry⟩ := List.mem_map.1 (List.mem_reverse.1 (NameTable.mem_of_get hget))
  obtain ⟨hname, -⟩ := Prod.mk.inj hentry
  exact NamedSet.containsName_of_fold hmode hname (hnames p.1 (List.mem_map_of_mem hp))

theorem RenamedView.mode_of_make {infos : List Value} {view : RenamedView σ}
    (h : make settings infos inner = .ok view) :
    view.inner = inner ∧ view.infos.mode = inner.mode := by
  obtain ⟨wrapped, -, h⟩ := exists_of_bind_ok h
  obtain ⟨found, -, h⟩ := exists_of_bind_ok h
  obtain ⟨visible, hvisible, h⟩ := exists_of_bind_ok h
  obtain rfl := Except.ok.inj h
  exact ⟨rfl, (ItemSet.containsName_of hvisible).1⟩

theorem RenamedView.faithful_of_make {infos : List Value} {view : RenamedView σ}
    (h : make settings infos inner = .ok view) : view.provider.Faithful := by
  obtain ⟨hinner, hmode⟩ := mode_of_make h
  refine .ofNames (hmode.trans (by rw [hinner])) ?_
  intro settings n vs context m v hv
  cases hget : view.wrapped? n.value with
  | none =>
    rw [resolveName_of_none hget] at hv
    cases hv
  | some original => exact containsName_of_wrapped h (by rw [hget]; rfl)

theorem MergedView.resolveName_of_none {view : MergedView σ} {n : Name}
    (h : view.wrappedNames.get? (view.inner.mode.fold n.value) = none) (vs : List Value)
    (context : Value) :
    view.resolveName (.ofName n vs context) = .fail (.unknown (.name n)) := by
  simp only [resolveName, Call.ofName, Provider.nameText_name, pure_bind, h]

theorem Tokened.item_of_ofItem {i : Item} {w : Tokened} (h : ofItem i = .ok w) : w.item = i := by
  obtain ⟨token, -, hpure⟩ := exists_of_bind_ok h
  rw [← Except.ok.inj hpure]

theorem MergedView.mode_of_make {renames : List Value} {view : MergedView σ}
    (h : make settings renames inner = .ok view) :
    view.inner = inner ∧ view.infos.mode = inner.infos.mode := by
  obtain ⟨held, -, h⟩ := exists_of_bind_ok h
  obtain ⟨wrapped, -, h⟩ := exists_of_bind_ok h
  split at h
  · cases h
  · obtain ⟨infos, hinfos, h⟩ := exists_of_bind_ok h
    obtain rfl := Except.ok.inj h
    exact ⟨rfl, (ItemSet.containsName_renameIfPresent hinfos).1⟩

/-- An entry is looked up under the name that it is advertised under. -/
theorem MergedView.containsName_of_wrapped {renames : List Value} {view : MergedView σ} {n : Name}
    (h : make settings renames inner = .ok view) (hinner : inner.infos.mode = inner.mode)
    (hget : (view.wrappedNames.get? (view.inner.mode.fold n.value)).isSome = true) :
    view.infos.set.containsName n.value = true := by
  obtain ⟨held, hheld, h⟩ := exists_of_bind_ok h
  obtain ⟨wrapped, hwrapped, h⟩ := exists_of_bind_ok h
  split at h
  · cases h
  · obtain ⟨infos, hinfos, h⟩ := exists_of_bind_ok h
    obtain rfl := Except.ok.inj h
    obtain ⟨hsame, held', hheld', hnames⟩ := ItemSet.containsName_renameIfPresent hinfos
    obtain rfl : held = held' := Except.ok.inj (hheld.symm.trans hheld')
    obtain ⟨original, hget⟩ := Option.isSome_iff_exists.1 hget
    obtain ⟨w, hw, hentry⟩ := List.mem_map.1 (List.mem_reverse.1 (NameTable.mem_of_get hget))
    obtain ⟨hname, -⟩ := Prod.mk.inj hentry
    obtain ⟨i, hi, hitem⟩ := exists_of_mem_mapM hwrapped w hw
    have hnew : ((Tokened.find? held w.token).getD i).name = newName held w := by
      rw [newName, Tokened.item_of_ofItem hitem]
      cases Tokened.find? held w.token <;> rfl
    rw [← hnew] at hname
    exact NamedSet.containsName_of_fold (hsame.trans hinner) hname (hnames i hi w hitem)

theorem MergedView.faithful_of_make {renames : List Value} {view : MergedView σ}
    (h : make settings renames inner = .ok view) (hinner : inner.Faithful) :
    view.provider.Faithful := by
  obtain ⟨heq, hmode⟩ := mode_of_make h
  refine .ofNames (hmode.trans (hinner.mode.trans (by rw [heq]))) ?_
  intro settings n vs context m v hv
  cases hget : view.wrappedNames.get? (view.inner.mode.fold n.value) with
  | none =>
    rw [resolveName_of_none hget] at hv
    cases hv
  | some original => exact containsName_of_wrapped h hinner.mode (by rw [hget]; rfl)

end View

/-! ## Aggregates -/

namespace Aggregate

variable {members : List (Member σ)}

theorem mem_of_mem_distinct {x : Member σ} (h : x ∈ distinct members) : x ∈ members := by
  have hfold : ∀ seen : List (Member σ),
      x ∈ members.foldl (fun seen m => if seen.any (fun n => n.id == m.id) then seen
        else seen ++ [m]) seen → x ∈ seen ∨ x ∈ members := by
    clear h
    induction members with
    | nil => exact fun seen hx => .inl hx
    | cons m members ih =>
      intro seen hx
      rcases ih _ hx with hx | hx
      · dsimp only at hx
        split at hx
        · exact .inl hx
        · rcases List.mem_append.1 hx with hx | hx
          · exact .inl hx
          · exact .inr (List.mem_singleton.1 hx ▸ List.mem_cons_self)
      · exact .inr (List.mem_cons_of_mem m hx)
  exact (hfold [] h).resolve_left List.not_mem_nil

/-- What is advertised is in the group of its folded name. -/
theorem key_of_mem_owners {mode : CaseMode} {g : Group σ} (hg : g ∈ owners mode members) :
    ∀ o ∈ g.2, mode.fold o.1.name.value = g.1 := by
  unfold owners at hg
  dsimp only at hg
  rw [foldl_addTo (fun o : Item × Provider σ => mode.fold o.1.name.value)] at hg
  obtain ⟨k, -, rfl⟩ := List.mem_map.1 hg
  intro o ho
  simpa using (List.mem_filter.1 ho).2

/-- What is kept of an advertised name is its entry under its folded name. -/
theorem key_of_mem_resolveAll {mode : CaseMode} {groups : List (Group σ)} {owned : List (Owned σ)}
    {m m' : Memory σ} (hgroups : ∀ g ∈ groups, ∀ o ∈ g.2, mode.fold o.1.name.value = g.1)
    (h : resolveAll context groups settings m = (.ok owned, m')) :
    ∀ o ∈ owned, mode.fold o.info.name.value = o.key := by
  induction groups generalizing owned m with
  | nil =>
    cases h
    exact fun o ho => absurd ho List.not_mem_nil
  | cons g groups ih =>
    have hrest := fun g hg => hgroups g (List.mem_cons_of_mem _ hg)
    obtain ⟨key, _ | ⟨⟨info, owner⟩, others⟩⟩ := g
    · exact ih hrest h
    · obtain ⟨found, m₁, -, h⟩ := Resolution.exists_of_bind_ok h
      obtain ⟨later, m₂, hlater, h⟩ := Resolution.exists_of_bind_ok h
      cases h
      intro o ho
      rcases List.mem_cons.1 ho with rfl | ho
      · exact hgroups _ List.mem_cons_self _ List.mem_cons_self
      · exact ih hrest hlater o ho

/-- What an aggregate is made of: the advertised names with what its members answered to them. -/
theorem exists_of_ofDistinct {a : Aggregate σ} {m m' : Memory σ}
    (h : ofDistinct members context settings m = (.ok a, m')) :
    a.mode = modeOf members ∧
      resolveAll context (owners (modeOf members) members) settings m = (.ok a.owned, m') ∧
      ItemSet.of settings .infos a.mode (a.owned.map (·.info)) = .ok a.infos := by
  unfold ofDistinct at h
  split at h
  · cases h
  · obtain ⟨clashing, m₁, hclashing, hrest⟩ := Resolution.exists_of_bind_ok h
    have hm : m₁ = m := by
      cases hcollisions : collisions (owners (modeOf members) members) with
      | error e =>
        rw [hcollisions] at hclashing
        cases hclashing
      | ok c =>
        rw [hcollisions] at hclashing
        exact ((Prod.mk.inj hclashing).2).symm
    rw [hm] at hrest
    split at hrest
    · obtain ⟨owned, m₂, howned, hlast⟩ := Resolution.exists_of_bind_ok hrest
      rw [Resolution.settings_bind] at hlast
      cases hinfos : ItemSet.of settings .infos (modeOf members) (owned.map (·.info)) with
      | error e =>
        rw [hinfos] at hlast
        cases hlast
      | ok infos =>
        rw [hinfos] at hlast
        cases hlast
        exact ⟨rfl, howned, hinfos⟩
    · cases hrest

/-- A name that an aggregate knows is that of an entry of its catalog. -/
theorem containsName_of_owned {a : Aggregate σ} {m m' : Memory σ} {n : Name}
    (h : ofDistinct members context settings m = (.ok a, m'))
    (hfind : (a.owned.find? (fun o => o.key == a.mode.fold n.value)).isSome = true) :
    a.infos.set.containsName n.value = true := by
  obtain ⟨hmode, howned, hinfos⟩ := exists_of_ofDistinct h
  obtain ⟨hcatalog, hnames⟩ := ItemSet.containsName_of hinfos
  obtain ⟨o, ho⟩ := Option.isSome_iff_exists.1 hfind
  have hmem := List.mem_of_find?_eq_some ho
  have hkey : o.key = a.mode.fold n.value := by simpa using List.find?_some ho
  have hname := key_of_mem_resolveAll (fun g hg => key_of_mem_owners hg) howned o hmem
  rw [← hmode] at hname
  exact NamedSet.containsName_of_fold hcatalog (hname.trans hkey)
    (hnames o.info (List.mem_map_of_mem hmem))

theorem faithful_of_ofDistinct {a : Aggregate σ} {m m' : Memory σ}
    (h : ofDistinct members context settings m = (.ok a, m')) : a.provider.Faithful := by
  obtain ⟨-, -, hinfos⟩ := exists_of_ofDistinct h
  refine .ofNames (ItemSet.containsName_of hinfos).1 ?_
  intro settings' n vs context' m v hv
  rw [resolveName_of_find] at hv
  split at hv
  · cases hv
  · next o ho => exact containsName_of_owned h (by rw [ho]; rfl)

end Aggregate

/-- Merging gives one of the members or an aggregate. -/
theorem Merged.exists_of_aggregate {members : List (Member σ)} {merged : Merged σ}
    {m m' : Memory σ}
    (h : FunctionCatalog.aggregate members context settings m = (.ok merged, m')) :
    (∃ x ∈ members, merged.provider = x.provider) ∨
      ∃ a : Aggregate σ, merged.provider = a.provider ∧
        Aggregate.make members context settings m = (.ok a, m') := by
  unfold FunctionCatalog.aggregate at h
  rcases hdistinct : Aggregate.distinct members with _ | ⟨x, _ | ⟨y, others⟩⟩
  · rw [hdistinct] at h
    cases h
  · rw [hdistinct] at h
    cases h
    exact .inl ⟨x, Aggregate.mem_of_mem_distinct (hdistinct ▸ List.mem_cons_self), rfl⟩
  · rw [hdistinct] at h
    obtain ⟨a, m₁, ha, h⟩ := Resolution.exists_of_bind_ok h
    cases h
    rw [← hdistinct] at ha
    exact .inr ⟨a, rfl, ha⟩

theorem Merged.exists_member_or_faithful {members : List (Member σ)} {merged : Merged σ}
    {m m' : Memory σ}
    (h : FunctionCatalog.aggregate members context settings m = (.ok merged, m')) :
    (∃ x ∈ members, merged.provider = x.provider) ∨ merged.provider.Faithful := by
  refine (exists_of_aggregate h).imp_right ?_
  rintro ⟨a, heq, ha⟩
  rw [heq]
  exact Aggregate.faithful_of_ofDistinct ha

/-! ## Compositions -/

namespace Provider

/-- The providers that are built of leaves and empty providers by views and aggregates whose
construction succeeded. The alias set of a view, and what a filter declares, compare names as the
wrapped provider does. A leaf keeps what it has in some part of the state, and a catalog may be
numbered. -/
inductive Composed : Provider σ → Prop
  | leaf {settings : Settings} {mode : CaseMode} {url : String} {functions : List Value}
      {leaf : Leaf} (get : σ → List Materialization) (set : List Materialization → σ → σ)
      (hleaf : Leaf.make settings mode url functions = .ok leaf) :
      Composed (leaf.provider.zoom get set)
  | empty (mode : CaseMode) : Composed (empty mode)
  | aliasView {settings : Settings} {aliases : ItemSet} {inner : Provider σ} {view : AliasView σ}
      (hinner : Composed inner) (hmode : aliases.mode = inner.mode)
      (hview : AliasView.make settings aliases inner = .ok view) : Composed view.provider
  | filteredView {infos : ItemSet} {inner : Provider σ} (hinner : Composed inner)
      (hmode : infos.mode = inner.mode) : Composed (FilteredView.provider ⟨inner, infos⟩)
  | renamedView {settings : Settings} {infos : List Value} {inner : Provider σ}
      {view : RenamedView σ} (hinner : Composed inner)
      (hview : RenamedView.make settings infos inner = .ok view) : Composed view.provider
  | mergedView {settings : Settings} {infos : List Value} {inner : Provider σ}
      {view : MergedView σ} (hinner : Composed inner)
      (hview : MergedView.make settings infos inner = .ok view) : Composed view.provider
  | aggregating {settings : Settings} {members : List (Member σ)} {context : Value}
      {a : Aggregate σ} {m m' : Memory σ} (hmembers : ∀ x ∈ members, Composed x.provider)
      (ha : Aggregate.make members context settings m = (.ok a, m')) : Composed a.provider
  | aggregate {settings : Settings} {members : List (Member σ)} {context : Value}
      {merged : Merged σ} {m m' : Memory σ} (hmembers : ∀ x ∈ members, Composed x.provider)
      (hmerged : FunctionCatalog.aggregate members context settings m = (.ok merged, m')) :
      Composed merged.provider
  | numbered {p : Provider σ} (next : Nat) (hp : Composed p) :
      Composed { p with infos := (p.infos.settle.run next).1 }

theorem Composed.faithful {p : Provider σ} (h : p.Composed) : p.Faithful := by
  induction h with
  | leaf get set hleaf => exact (Leaf.faithful_of_make hleaf).zoom get set
  | empty mode => exact .empty mode
  | aliasView _ hmode hview ih => exact AliasView.faithful_of_make hview hmode ih
  | @filteredView infos inner _ hmode ih => exact FilteredView.faithful inner hmode
  | renamedView _ hview ih => exact RenamedView.faithful_of_make hview
  | mergedView _ hview ih => exact MergedView.faithful_of_make hview ih
  | aggregating _ ha ih => exact Aggregate.faithful_of_ofDistinct ha
  | aggregate _ hmerged ih =>
    obtain ⟨x, hx, heq⟩ | h := Merged.exists_member_or_faithful hmerged
    · rw [heq]
      exact ih x hx
    · exact h
  | numbered next _ ih => exact ih.numbered next

/-- However views and aggregates are nested, a composition hides nothing that it resolves: its
catalog has every name that it resolves with any values, and every name at any depth of a selector
that it resolves. The catalog compares names as the composition does. -/
theorem Composed.advertises {p : Provider σ} (h : p.Composed) :
    p.infos.mode = p.mode ∧
    (∀ settings n vs context m v,
      (p.resolveName (.ofName n vs context) settings m).1 = .ok v →
      p.infos.containsName (.name n) = .ok true) ∧
    (∀ settings s values context m v,
      (p.resolve (.item (.selector s)) values context settings m).1 = .ok v →
      p.infos.containsName (.name s.name) = .ok true ∧
      ∃ ps, s.parameters settings = .ok ps ∧
        ∀ n ∈ Parameter.namesAll ps, p.infos.containsName (.name n) = .ok true) := by
  have hcontains : ∀ n : Name, p.infos.set.containsName n.value = true →
      p.infos.containsName (.name n) = .ok true := fun n hn => congrArg Except.ok hn
  refine ⟨h.faithful.mode, ?_, ?_⟩
  · intro settings n vs context m v hv
    exact hcontains n (h.faithful.name hv)
  · intro settings s values context m v hv
    by_cases hvalues : values.isTruthy = true
    · obtain ⟨e, he⟩ := exists_resolve_selector_error p s hvalues context settings m
      rw [he] at hv
      cases hv
    · rw [resolve_selector p s (by simpa using hvalues)] at hv
      obtain ⟨ps, hps, hall⟩ := h.faithful.selector hv
      rw [Parameter.names] at hall
      refine ⟨hcontains _ (hall _ List.mem_concat_self), ps, hps, fun n hn => ?_⟩
      exact hcontains n (hall n (List.mem_append_left _ hn))

/-! ### Two leaves, a view of each, and both as one -/

/-- What two leaves keep. -/
abbrev Kept := List Materialization × List Materialization

/-- A function of an operation. -/
def functionOf (text : String) (h : isName text.toList = true) (operation : Operation) : Value :=
  .item (.function (.make { value := text, mode := .sensitive, isName_value := h } operation []))

def numbers : Provider Kept :=
  match Leaf.make {} .sensitive "u"
      [functionOf "norm" (by decide) .abs, functionOf "max" (by decide) .max] with
  | .ok leaf => leaf.provider.zoom Prod.fst (fun kept s => (kept, s.2))
  | .error _ => .empty .sensitive

def texts : Provider Kept :=
  match Leaf.make {} .insensitive "v" [functionOf "lower" (by decide) .lower] with
  | .ok leaf => leaf.provider.zoom Prod.snd (fun kept s => (s.1, kept))
  | .error _ => .empty .insensitive

/-- A forwarded name, and an alias of a tree. -/
def best : ItemSet :=
  match AliasSet.parse {} .sensitive "norm, best max(norm)" with
  | .ok s => s.asItems
  | .error _ => .empty .aliases .sensitive

def bestNumbers : Provider Kept :=
  match AliasView.make {} best numbers with
  | .ok view => view.provider
  | .error _ => numbers

/-- The function on texts under a new name. -/
def smallTexts : Provider Kept :=
  match RenamedView.make {}
      [.item (.info (Aggregate.letter .insensitive "small" "v/lower" (by decide) (by decide)))]
      texts with
  | .ok view => view.provider
  | .error _ => texts

def nested : Provider Kept :=
  match aggregate [⟨0, bestNumbers⟩, ⟨1, smallTexts⟩] .null {} ⟨0, ([], [])⟩ with
  | (.ok merged, _) => merged.provider
  | (.error _, _) => .empty .insensitive

theorem composed_nested : nested.Composed := by
  have hnumbers : numbers.Composed := by
    unfold numbers
    split
    · next h => exact .leaf _ _ h
    · exact .empty _
  have htexts : texts.Composed := by
    unfold texts
    split
    · next h => exact .leaf _ _ h
    · exact .empty _
  have hbest : bestNumbers.Composed := by
    unfold bestNumbers
    split
    · next h => exact .aliasView hnumbers (by decide +kernel) h
    · exact hnumbers
  have hsmall : smallTexts.Composed := by
    unfold smallTexts
    split
    · next h => exact .renamedView htexts h
    · exact htexts
  unfold nested
  split
  · next h =>
    refine .aggregate (fun x hx => ?_) h
    rcases List.mem_pair.1 hx with rfl | rfl
    · exact hbest
    · exact hsmall
  · exact .empty _

/-- A tree with a name of each leaf and an alias. -/
def picking : Selector where
  name := { value := "Norm", mode := .insensitive, isName_value := by decide }
  valueText := "(small(best), 1)"
  isSeparated_valueText := by decide

theorem advertises_nested :
    nested.infos.mode = nested.mode ∧
    (∃ v, (nested.resolveName (.ofName picking.name [.int 1] .null) {} ⟨0, ([], [])⟩).1 = .ok v ∧
      nested.infos.containsName (.name picking.name) = .ok true) ∧
    ∃ v ps, (nested.resolve (.item (.selector picking)) (.list []) .null {} ⟨0, ([], [])⟩).1 =
        .ok v ∧
      picking.parameters {} = .ok ps ∧
      ∀ n ∈ Parameter.namesAll ps, nested.infos.containsName (.name n) = .ok true := by
  obtain ⟨hmode, hname, hselector⟩ := composed_nested.advertises
  have hbound : (nested.resolveName (.ofName picking.name [.int 1] .null) {}
      ⟨0, ([], [])⟩).1.isOk = true := by
    decide +kernel
  have hpicked : (nested.resolve (.item (.selector picking)) (.list []) .null {}
      ⟨0, ([], [])⟩).1.isOk = true := by
    decide +kernel
  obtain ⟨f, hf⟩ := exists_of_isOk hbound
  obtain ⟨v, hv⟩ := exists_of_isOk hpicked
  obtain ⟨-, ps, hps, hall⟩ := hselector _ _ _ _ _ _ hv
  exact ⟨hmode, ⟨f, hf, hname _ _ _ _ _ _ hf⟩, v, ps, hv, hps, hall⟩

end Provider

end FunctionCatalog
