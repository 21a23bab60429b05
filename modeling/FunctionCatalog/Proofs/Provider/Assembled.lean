import FunctionCatalog.Proofs.ItemSet.Invariant
import FunctionCatalog.Proofs.Provider.Composition
import Mathlib.Logic.Function.Basic

/-
  FunctionCatalog: providers that are assembled from leaves with stores.
  `Assembled` is the composition of leaves of functions, each of which keeps what it makes in a store
  of its own, under catalogs of infos and sets of aliases. What such a provider advertises is a
  catalog of infos, it answers with functions alone, and a name that it does not advertise is
  unknown to it, however deep it is nested.
-/

namespace FunctionCatalog

variable {σ ι : Type} {settings : Settings} {context : Value}

/-- The infos of a catalog as values. -/
def InfoSet.values (s : InfoSet) : List Value :=
  s.entries.map (fun i => .item (.info i))

/-- What each of several leaves keeps. -/
abbrev Stores (ι : Type) := ι → List Materialization

/-- A leaf with the store at `i`. -/
def Leaf.storing [DecidableEq ι] (i : ι) (leaf : Leaf) : Provider (Stores ι) :=
  leaf.provider.zoom (fun s => s i) (fun kept s => Function.update s i kept)

namespace Provider

/-- The providers that are built of some leaves and of empty providers by views and aggregates. The
leaves hold functions. The alias set or catalog that a view is given compares names as the wrapped
provider does. The targets of aliases satisfy `T`, and so do `Q` the stores at the time when an
aggregate resolves the names of its members. -/
inductive Assembled [DecidableEq ι] (T : Selector → Prop) (Q : Stores ι → Prop) (leaves : ι → Leaf) :
    Provider (Stores ι) → Prop
  | leaf {settings : Settings} {mode : CaseMode} {url : String} {functions : List NamedFunction}
      (i : ι) (h : Leaf.make settings mode url (functions.map (fun f => .item (.function f))) =
        .ok (leaves i)) : Assembled T Q leaves (Leaf.storing i (leaves i))
  | empty (mode : CaseMode) : Assembled T Q leaves (empty mode)
  | aliasView {settings : Settings} {aliases : AliasSet} {inner : Provider (Stores ι)}
      {view : AliasView (Stores ι)} (hinner : Assembled T Q leaves inner)
      (hmode : aliases.mode = inner.mode) (htargets : ∀ a ∈ aliases.entries, ∀ s ∈ a.target, T s)
      (h : AliasView.make settings aliases.asItems inner = .ok view) :
      Assembled T Q leaves view.provider
  | filteredView {infos : InfoSet} {inner : Provider (Stores ι)}
      (hinner : Assembled T Q leaves inner) (hmode : infos.mode = inner.mode) :
      Assembled T Q leaves (FilteredView.provider ⟨inner, infos.asItems⟩)
  | renamedView {settings : Settings} {infos : InfoSet} {inner : Provider (Stores ι)}
      {view : RenamedView (Stores ι)} (hinner : Assembled T Q leaves inner)
      (hmode : infos.mode = inner.mode)
      (h : RenamedView.make settings infos.values inner = .ok view) :
      Assembled T Q leaves view.provider
  | mergedView {settings : Settings} {infos : InfoSet} {inner : Provider (Stores ι)}
      {view : MergedView (Stores ι)} (hinner : Assembled T Q leaves inner)
      (hmode : infos.mode = inner.mode)
      (h : MergedView.make settings infos.values inner = .ok view) :
      Assembled T Q leaves view.provider
  | aggregating {settings : Settings} {members : List (Member (Stores ι))} {context : Value}
      {a : Aggregate (Stores ι)} {m m' : Memory (Stores ι)}
      (hmembers : ∀ x ∈ members, Assembled T Q leaves x.provider) (hm : Q m.state)
      (h : Aggregate.make members context settings m = (.ok a, m')) :
      Assembled T Q leaves a.provider
  | numbered {p : Provider (Stores ι)} (next : Nat) (hp : Assembled T Q leaves p) :
      Assembled T Q leaves { p with infos := (p.infos.settle.run next).1 }

variable [DecidableEq ι] {T : Selector → Prop} {Q : Stores ι → Prop} {leaves : ι → Leaf}
  {p : Provider (Stores ι)}

/-- What merging assembled providers gives is assembled. -/
theorem Assembled.aggregate {members : List (Member (Stores ι))} {merged : Merged (Stores ι)}
    {m m' : Memory (Stores ι)} (hmembers : ∀ x ∈ members, Assembled T Q leaves x.provider)
    (hm : Q m.state)
    (h : FunctionCatalog.aggregate members context settings m = (.ok merged, m')) :
    Assembled T Q leaves merged.provider := by
  rcases Merged.exists_of_aggregate h with ⟨x, hx, heq⟩ | ⟨a, heq, ha⟩
  · rw [heq]
    exact hmembers x hx
  · rw [heq]
    exact .aggregating hmembers hm ha

theorem Assembled.composed (h : p.Assembled T Q leaves) : p.Composed := by
  induction h with
  | leaf i h => exact .leaf _ _ h
  | empty mode => exact .empty mode
  | @aliasView _ aliases _ _ _ hmode _ h ih =>
    have haliases : aliases.asItems.mode = _ := hmode
    exact .aliasView ih haliases h
  | filteredView _ hmode ih => exact .filteredView ih hmode
  | renamedView _ _ h ih => exact .renamedView ih h
  | mergedView _ _ h ih => exact .mergedView ih h
  | aggregating _ _ h ih => exact .aggregating ih h
  | numbered next _ ih => exact .numbered next ih

end Provider

/-! ## Catalogs of infos -/

namespace ItemSet

variable {s t : ItemSet}

theorem exists_asItems_of_admits (hkind : s.kind = .infos)
    (h : ∀ e ∈ s.entries, SetKind.infos.Admits e) :
    ∃ catalog : InfoSet, s = catalog.asItems := by
  have hinfos : ∃ infos : List Info, s.entries = infos.map .info := by
    generalize s.entries = entries at h
    induction entries with
    | nil => exact ⟨[], rfl⟩
    | cons e entries ih =>
      obtain ⟨i, rfl⟩ := h e List.mem_cons_self
      obtain ⟨infos, rfl⟩ := ih fun f hf => h f (List.mem_cons_of_mem _ hf)
      exact ⟨i :: infos, rfl⟩
  obtain ⟨infos, hentries⟩ := hinfos
  obtain ⟨catalog, heq, -⟩ := exists_asItems hkind hentries
  exact ⟨catalog, heq⟩

theorem admits_asItems (infos : InfoSet) : ∀ e ∈ infos.asItems.entries, SetKind.infos.Admits e := by
  intro e he
  obtain ⟨i, -, rfl⟩ := List.mem_map.1 he
  exact ⟨i, rfl⟩

theorem exists_asItems_of_of {mode : CaseMode} {items : List Item}
    (hitems : ∀ i ∈ items, SetKind.infos.Admits i) (h : of settings .infos mode items = .ok t) :
    ∃ catalog : InfoSet, t = catalog.asItems := by
  obtain ⟨u, hu, rfl⟩ := exists_of_map_ok h
  exact exists_asItems_of_admits rfl (admits_of_of hitems (ok_of_mapError_ok hu))

theorem admits_of_makeInfo {n : Name} {text : String} {i : Item}
    (h : Item.makeInfo n (.text text) = .ok i) : SetKind.infos.Admits i := by
  obtain ⟨j, -, rfl⟩ := exists_of_map_ok h
  exact ⟨j, rfl⟩

/-- What an alias shows of a catalog of infos is an info. -/
theorem admits_of_shown {catalog : Name → Except Failure (Option Item)} {a : Alias}
    {found : Option Item}
    (hcatalog : ∀ n i, catalog n = .ok (some i) → SetKind.infos.Admits i)
    (h : shown? settings catalog (.alias a) = .ok found) :
    ∀ i ∈ found, SetKind.infos.Admits i := by
  rintro i rfl
  obtain ⟨target, htarget, h⟩ := exists_of_bind_ok h
  obtain rfl : a.target = target := Except.ok.inj htarget
  cases ht : a.target with
  | none =>
    rw [ht] at h
    exact hcatalog _ _ h
  | some s =>
    rw [ht] at h
    have hfinal : ∀ {text : String}, (do
        let j ← Item.makeInfo a.name (.text text)
        pure (some j) : Except Failure (Option Item)) = .ok (some i) → SetKind.infos.Admits i := by
      intro text hinfo
      obtain ⟨j, hj, hpure⟩ := exists_of_bind_ok hinfo
      obtain rfl := Option.some.inj (Except.ok.inj hpure)
      exact admits_of_makeInfo hj
    -- The token of the alias, of what stands behind it or made of its name is a text.
    obtain ⟨own, hown, h⟩ := exists_of_bind_ok h
    obtain rfl := Except.ok.inj hown
    cases hk : a.token with
    | some text =>
      rw [hk] at h
      exact hfinal h
    | none =>
      rw [hk] at h
      obtain ⟨behind, hbehind, h⟩ := exists_of_bind_ok h
      cases behind with
      | none => exact hfinal h
      | some j =>
        obtain ⟨j, rfl⟩ := hcatalog _ _ hbehind
        exact hfinal h

end ItemSet

theorem InfoSet.admits_argumentItems (infos : InfoSet) :
    ∀ i ∈ ItemSet.argumentItems [.list infos.values], SetKind.infos.Admits i := by
  intro i hi
  have hmem : i ∈ infos.values.filterMap Item.ofValue? := by
    simpa [ItemSet.argumentItems, Value.items?] using hi
  obtain ⟨v, hv, hitem⟩ := List.mem_filterMap.1 hmem
  obtain ⟨j, -, rfl⟩ := List.mem_map.1 hv
  exact ⟨j, (Option.some.inj hitem).symm⟩

/-! ## What an aggregate keeps of its members -/

namespace Aggregate

variable {members : List (Member σ)} {m m' : Memory σ}

theorem mem_of_mem_owners {mode : CaseMode} {g : Group σ} (hg : g ∈ owners mode members) :
    ∀ o ∈ g.2, ∃ x ∈ members, o.2 = x.provider ∧ o.1 ∈ x.provider.infos.entries := by
  unfold owners at hg
  dsimp only at hg
  rw [foldl_addTo (fun o : Item × Provider σ => mode.fold o.1.name.value)] at hg
  obtain ⟨k, -, rfl⟩ := List.mem_map.1 hg
  intro o ho
  obtain ⟨x, hx, ho⟩ := List.mem_flatMap.1 (List.mem_filter.1 ho).1
  obtain ⟨i, hi, rfl⟩ := List.mem_map.1 ho
  exact ⟨x, hx, rfl, hi⟩

/-- What holds of every answer that is gathered holds of all that is kept. -/
theorem forall_of_resolveAll {J : Memory σ → Prop} {R : Item → Provider σ → Value → Prop}
    {groups : List (Group σ)} {owned : List (Owned σ)}
    (hstep : ∀ g ∈ groups, ∀ o ∈ g.2, ∀ m₁ m₂ v, J m₁ →
      o.2.resolveName (.ofName o.1.name [] context) settings m₁ = (.ok v, m₂) →
        R o.1 o.2 v ∧ J m₂)
    (hm : J m) (h : resolveAll context groups settings m = (.ok owned, m')) :
    (∀ o ∈ owned, R o.info o.owner o.found) ∧ J m' := by
  induction groups generalizing owned m with
  | nil =>
    cases h
    exact ⟨fun o ho => absurd ho List.not_mem_nil, hm⟩
  | cons g groups ih =>
    have hrest := fun g hg => hstep g (List.mem_cons_of_mem _ hg)
    obtain ⟨key, _ | ⟨⟨info, owner⟩, others⟩⟩ := g
    · exact ih hrest hm h
    · obtain ⟨found, m₁, hfound, h⟩ := Resolution.exists_of_bind_ok h
      obtain ⟨later, m₂, hlater, h⟩ := Resolution.exists_of_bind_ok h
      cases h
      obtain ⟨hR, hm₁⟩ := hstep _ List.mem_cons_self _ List.mem_cons_self m m₁ found hm hfound
      obtain ⟨howned, hm'⟩ := ih hrest hm₁ hlater
      refine ⟨fun o ho => ?_, hm'⟩
      rcases List.mem_cons.1 ho with rfl | ho
      · exact hR
      · exact howned o ho

/-- Each name of an aggregate is that of an entry of a member, with an answer of this member. -/
theorem forall_owned {J : Memory σ → Prop} {R : Item → Provider σ → Value → Prop}
    {a : Aggregate σ}
    (hstep : ∀ x ∈ members, ∀ i ∈ x.provider.infos.entries, ∀ m₁ m₂ v, J m₁ →
      x.provider.resolveName (.ofName i.name [] context) settings m₁ = (.ok v, m₂) →
        R i x.provider v ∧ J m₂)
    (hm : J m) (h : make members context settings m = (.ok a, m')) :
    (∀ o ∈ a.owned, R o.info o.owner o.found) ∧ J m' := by
  obtain ⟨-, howned, -⟩ := exists_of_ofDistinct h
  refine forall_of_resolveAll (fun g hg o ho m₁ m₂ v hm₁ hv => ?_) hm howned
  obtain ⟨x, hx, howner, hi⟩ := mem_of_mem_owners hg o ho
  rw [howner] at hv ⊢
  exact hstep x (mem_of_mem_distinct hx) o.1 hi m₁ m₂ v hm₁ hv

end Aggregate

namespace Provider

/-- A provider that advertises a catalog of infos. -/
def HasCatalog (p : Provider σ) : Prop :=
  ∃ catalog : InfoSet, p.infos = catalog.asItems

end Provider

section Catalogs

variable {inner : Provider σ}

theorem AliasView.hasCatalog_of_make {aliases : AliasSet} {view : AliasView σ}
    (h : make settings aliases.asItems inner = .ok view) (hinner : inner.HasCatalog) :
    view.provider.HasCatalog := by
  obtain ⟨catalog, hcatalog⟩ := hinner
  obtain ⟨infos, hmerge, hview⟩ := exists_of_bind_ok h
  obtain rfl := Except.ok.inj hview
  obtain ⟨shown, hshown, hof⟩ := exists_of_bind_ok hmerge
  refine ItemSet.exists_asItems_of_of (fun i hi => ?_) hof
  obtain ⟨found, hfound, rfl⟩ := List.mem_filterMap.1 hi
  obtain ⟨e, he, hfound⟩ := exists_of_mem_mapM hshown _ hfound
  obtain ⟨a, -, rfl⟩ := List.mem_map.1 he
  refine ItemSet.admits_of_shown (fun n j hj => ?_) hfound i rfl
  rw [hcatalog] at hj
  exact ItemSet.admits_asItems catalog j (List.mem_of_find?_eq_some (Except.ok.inj hj))

theorem RenamedView.hasCatalog_of_make {infos : InfoSet} {view : RenamedView σ}
    (h : make settings infos.values inner = .ok view) : view.provider.HasCatalog := by
  obtain ⟨wrapped, -, h⟩ := exists_of_bind_ok h
  obtain ⟨found, hfound, h⟩ := exists_of_bind_ok h
  obtain ⟨visible, hvisible, h⟩ := exists_of_bind_ok h
  obtain rfl := Except.ok.inj h
  refine ItemSet.exists_asItems_of_of (fun i hi => ?_) hvisible
  obtain ⟨pair, hpair, rfl⟩ := List.mem_map.1 hi
  obtain ⟨matched, hmatched, rfl⟩ := List.mem_filterMap.1 hpair
  obtain ⟨v, hv, hmatched⟩ := exists_of_mem_mapM hfound _ hmatched
  obtain ⟨j, -, rfl⟩ := List.mem_map.1 hv
  obtain ⟨w, hw, hmatched⟩ := exists_of_bind_ok hmatched
  obtain ⟨found, -, heq⟩ := Option.map_eq_some_iff.1 (Except.ok.inj hmatched)
  have hitem : Tokened.ofItem (.info j) = .ok w := hw
  rw [← heq, Tokened.item_of_ofItem hitem]
  exact ⟨j, rfl⟩

/-- Renaming a catalog of infos by infos gives one. -/
theorem MergedView.hasCatalog_of_make {infos : InfoSet} {view : MergedView σ}
    (h : make settings infos.values inner = .ok view) (hinner : inner.HasCatalog) :
    view.provider.HasCatalog := by
  obtain ⟨catalog, hcatalog⟩ := hinner
  obtain ⟨held, -, h⟩ := exists_of_bind_ok h
  obtain ⟨wrapped, -, h⟩ := exists_of_bind_ok h
  split at h
  · cases h
  · obtain ⟨visible, hvisible, h⟩ := exists_of_bind_ok h
    obtain rfl := Except.ok.inj h
    have hitems : ItemSet.itemsOf (.list infos.values) = .ok infos.values := rfl
    have hchange := ItemSet.isChange_of_renameIfPresent hitems hvisible
    rw [hcatalog] at hchange
    have hadmits := ItemSet.admits_of_isChange (ItemSet.admits_asItems catalog)
      infos.admits_argumentItems hchange
    have hkind : visible.kind = .infos := (ItemSet.keepsIdentity_of_isChange hchange).kind
    rw [hkind] at hadmits
    exact ItemSet.exists_asItems_of_admits hkind hadmits

theorem Aggregate.hasCatalog_of_make {members : List (Member σ)} {a : Aggregate σ}
    {m m' : Memory σ} (h : make members context settings m = (.ok a, m'))
    (hmembers : ∀ x ∈ members, x.provider.HasCatalog) : a.provider.HasCatalog := by
  obtain ⟨-, -, hinfos⟩ := exists_of_ofDistinct h
  refine ItemSet.exists_asItems_of_of (fun i hi => ?_) hinfos
  obtain ⟨o, ho, rfl⟩ := List.mem_map.1 hi
  refine (forall_owned (J := fun _ => True) (R := fun i _ _ => SetKind.infos.Admits i)
    (fun x hx i hi _ _ _ _ _ => ⟨?_, trivial⟩) trivial h).1 o ho
  obtain ⟨catalog, hcatalog⟩ := hmembers x hx
  rw [hcatalog] at hi
  exact ItemSet.admits_asItems catalog i hi

theorem Provider.HasCatalog.numbered {p : Provider σ} (h : p.HasCatalog) (next : Nat) :
    HasCatalog { p with infos := (p.infos.settle.run next).1 } := by
  obtain ⟨catalog, hcatalog⟩ := h
  rw [hcatalog]
  rcases ItemSet.settle_cases catalog.asItems next with heq | ⟨hkind, -, hentries⟩
  · exact ⟨catalog, heq⟩
  · have hadmits := ItemSet.admits_settleAll (ItemSet.admits_asItems catalog) next
    rw [← hentries] at hadmits
    exact ItemSet.exists_asItems_of_admits hkind hadmits

end Catalogs

namespace Provider

variable [DecidableEq ι] {T : Selector → Prop} {Q : Stores ι → Prop} {leaves : ι → Leaf}
  {p : Provider (Stores ι)}

theorem Assembled.hasCatalog (h : p.Assembled T Q leaves) : p.HasCatalog := by
  induction h with
  | leaf i h => exact ⟨(leaves i).infos, rfl⟩
  | empty mode => exact ⟨.empty mode, rfl⟩
  | aliasView _ _ _ h ih => exact AliasView.hasCatalog_of_make h ih
  | @filteredView infos inner _ _ ih => exact ⟨infos, rfl⟩
  | renamedView _ _ h ih => exact RenamedView.hasCatalog_of_make h
  | mergedView _ _ h ih => exact MergedView.hasCatalog_of_make h ih
  | aggregating _ _ h ih => exact Aggregate.hasCatalog_of_make h ih
  | numbered next _ ih => exact ih.numbered next

end Provider

/-! ## Answers -/

namespace Leaf

variable {leaf : Leaf}

/-- A leaf that is made of functions has nothing else. -/
theorem exists_function {mode : CaseMode} {url : String} {functions : List NamedFunction}
    (h : make settings mode url (functions.map (fun f => .item (.function f))) = .ok leaf)
    {key : String} {item : Item} (hitem : leaf.function? key = some item) :
    ∃ f, item = .function f := by
  obtain ⟨items, hitems, h⟩ := exists_of_bind_ok h
  split at h
  · obtain ⟨infos, -, h⟩ := exists_of_bind_ok h
    obtain ⟨catalog, -, h⟩ := exists_of_bind_ok h
    obtain rfl := Except.ok.inj h
    obtain ⟨e, he, rfl⟩ := Option.map_eq_some_iff.1 hitem
    obtain ⟨i, hi, rfl⟩ := List.mem_map.1 (List.mem_of_find?_eq_some he)
    unfold functionsOf at hitems
    split at hitems
    · cases hitems
    · obtain ⟨v, hv, hi⟩ := exists_of_mem_mapM hitems i hi
      obtain ⟨f, -, rfl⟩ := List.mem_map.1 hv
      obtain ⟨n, -, hname⟩ := exists_of_bind_ok (ok_of_mapError_ok hi)
      exact ⟨f.withName n, (Except.ok.inj hname).symm⟩
  · cases h

end Leaf

section View

variable {inner : Provider σ} {n : Name}

/-- Under a name there is no alias, one that forwards it, or one of a target. -/
theorem AliasView.lookup_cases {aliases : ItemSet} {view : AliasView σ}
    (h : make settings aliases inner = .ok view) (n : Name) :
    view.aliases.set.get? n.value = none ∨
      (∃ i, view.aliases.set.get? n.value = some i ∧ i.target = .ok none) ∨
      ∃ i s, view.aliases.set.get? n.value = some i ∧ i.target = .ok (some s) := by
  obtain ⟨rfl, -, htargets⟩ := eq_of_make h
  cases hentry : view.aliases.set.get? n.value with
  | none => exact .inl rfl
  | some i =>
    obtain ⟨_ | s, ht⟩ := htargets i (List.mem_of_find?_eq_some hentry)
    · exact .inr (.inl ⟨i, rfl, ht⟩)
    · exact .inr (.inr ⟨i, s, rfl, ht⟩)

/-- Names that are equal under the mode of the wrapped provider have one entry. -/
theorem AliasView.get?_of_fold {aliases : ItemSet} {view : AliasView σ}
    (h : make settings aliases inner = .ok view) (hmode : aliases.mode = inner.mode)
    {n₁ n₂ : Name} (hn : inner.mode.fold n₁.value = inner.mode.fold n₂.value) :
    view.aliases.set.get? n₁.value = view.aliases.set.get? n₂.value := by
  obtain ⟨haliases, -, -⟩ := eq_of_make h
  rw [← hmode, ← haliases] at hn
  exact congrArg view.aliases.set.find? hn

theorem FilteredView.declares_of_fold {infos : ItemSet} (hmode : infos.mode = inner.mode)
    {n₁ n₂ : Name} (hn : inner.mode.fold n₁.value = inner.mode.fold n₂.value) :
    (FilteredView.mk inner infos).declares n₁ = (FilteredView.mk inner infos).declares n₂ := by
  rw [← hmode] at hn
  exact congrArg (fun key => (infos.set.find? key).isSome) hn

/-- A resolver that looks names up in a table and asks a provider for what it finds there, to hand it
out under the name that it was asked for. -/
structure Renaming (inner : Provider σ) (names : NameTable) (resolver : Resolver σ) : Prop where
  unknown : ∀ {n : Name}, names.get? (inner.mode.fold n.value) = none → ∀ vs context,
    resolver (.ofName n vs context) = .fail (.unknown (.name n))
  found : ∀ {n wrapped : Name}, names.get? (inner.mode.fold n.value) = some wrapped →
    ∀ vs context, resolver (.ofName n vs context) = inner.relabel wrapped (.ofName n vs context)

theorem RenamedView.renaming (view : RenamedView σ) :
    Renaming view.inner view.wrappedNames view.resolveName where
  unknown h := resolveName_of_none h
  found {n wrapped} h vs context := by
    have hwrapped : view.wrapped? n.value = some wrapped := h
    simp only [resolveName, Call.ofName, Provider.nameText_name, pure_bind, hwrapped]

theorem MergedView.renaming (view : MergedView σ) :
    Renaming view.inner view.wrappedNames view.resolveName where
  unknown h := resolveName_of_none h
  found h vs context := by
    simp only [resolveName, Call.ofName, Provider.nameText_name, pure_bind, h]

end View

/-- The value of a selector is an answer of the resolver. -/
theorem Selector.exists_of_evaluate_ok {resolver : Resolver σ} {s : Selector} {m : Memory σ}
    {v : Value} (h : (s.evaluate resolver context settings m).1 = .ok v) :
    ∃ vs m', (resolver (.ofName s.name vs context) settings m').1 = .ok v := by
  cases hps : s.parameters settings with
  | error e =>
    rw [evaluate_of_error hps] at h
    cases h
  | ok ps =>
    rw [evaluate_of_parameters hps] at h
    obtain ⟨vs, m', -, hv⟩ := Resolution.exists_of_bind_ok (Prod.ext h rfl)
    exact ⟨vs, m', congrArg Prod.fst hv⟩

namespace Provider

/-- A provider that answers with functions alone. -/
structure Functional (p : Provider σ) : Prop where
  name : ∀ {settings : Settings} {n : Name} {vs : List Value} {context : Value} {m : Memory σ}
    {v : Value}, (p.resolveName (.ofName n vs context) settings m).1 = .ok v →
      ∃ f, v = .item (.function f)
  selector : ∀ {settings : Settings} {s : Selector} {context : Value} {m : Memory σ} {v : Value},
    (p.resolveSelector (.item (.selector s)) context settings m).1 = .ok v →
      ∃ f, v = .item (.function f)

theorem Functional.ofNames {mode : CaseMode} {infos : ItemSet} {resolver : Resolver σ}
    (h : ∀ {settings : Settings} {n : Name} {vs : List Value} {context : Value} {m : Memory σ}
      {v : Value}, (resolver (.ofName n vs context) settings m).1 = .ok v →
        ∃ f, v = .item (.function f)) : (ofNames mode infos resolver).Functional where
  name := h
  selector hv := by
    obtain ⟨vs, m', hv⟩ := Selector.exists_of_evaluate_ok hv
    exact h hv

section Relabel

variable {p : Provider σ} {wrapped n : Name} {vs : List Value} {m m' : Memory σ}

theorem relabel_of_ok {f : NamedFunction}
    (h : p.resolveName (.ofName wrapped vs context) settings m = (.ok (.item (.function f)), m')) :
    p.relabel wrapped (.ofName n vs context) settings m =
      (.ok (.item (.function ((f.withName n).settle.run m'.next).1)),
        ⟨((f.withName n).settle.run m'.next).2, m'.state⟩) := by
  show (p.resolveName (.ofName wrapped vs context) >>= _) settings m = _
  rw [Resolution.bind_apply, h]
  rfl

theorem relabel_of_error {e : Failure}
    (h : p.resolveName (.ofName wrapped vs context) settings m = (.error e, m')) :
    p.relabel wrapped (.ofName n vs context) settings m = (.error e, m') := by
  show (p.resolveName (.ofName wrapped vs context) >>= _) settings m = _
  rw [Resolution.bind_apply, h]

/-- A function under another name is a function. -/
theorem Functional.exists_of_relabel (hp : p.Functional) {v : Value}
    (hv : (p.relabel wrapped (.ofName n vs context) settings m).1 = .ok v) :
    ∃ f, v = .item (.function f) := by
  rcases h : p.resolveName (.ofName wrapped vs context) settings m with ⟨e | found, m'⟩
  · rw [relabel_of_error h] at hv
    cases hv
  · obtain ⟨f, rfl⟩ := hp.name (congrArg Prod.fst h)
    rw [relabel_of_ok h] at hv
    exact ⟨_, (Except.ok.inj hv).symm⟩

end Relabel

end Provider

theorem Renaming.functional {inner : Provider σ} {names : NameTable} {resolver : Resolver σ}
    (h : Renaming inner names resolver) (hinner : inner.Functional) (mode : CaseMode)
    (infos : ItemSet) : (Provider.ofNames mode infos resolver).Functional := by
  refine .ofNames ?_
  intro settings n vs context m v hv
  cases hget : names.get? (inner.mode.fold n.value) with
  | none =>
    rw [h.unknown hget] at hv
    cases hv
  | some wrapped =>
    rw [h.found hget] at hv
    exact hinner.exists_of_relabel hv

theorem Leaf.functional_of_make {mode : CaseMode} {url : String} {functions : List NamedFunction}
    {leaf : Leaf}
    (h : make settings mode url (functions.map (fun f => .item (.function f))) = .ok leaf) :
    leaf.provider.Functional := by
  refine .ofNames ?_
  intro settings n vs context m v hv
  cases hitem : leaf.function? (leaf.mode.fold n.value) with
  | none =>
    rw [resolveName_of_none hitem] at hv
    cases hv
  | some item =>
    obtain ⟨f, rfl⟩ := exists_function h hitem
    cases vs with
    | nil =>
      rw [resolveName_nil hitem] at hv
      exact ⟨f, (Except.ok.inj hv).symm⟩
    | cons w ws =>
      rw [resolveName_cons hitem] at hv
      obtain ⟨g, m₁, -, hv⟩ := Resolution.exists_of_bind_ok (Prod.ext hv rfl)
      cases hv
      exact ⟨g, rfl⟩

section Layers

variable {inner : Provider σ}

theorem AliasView.functional_of_make {aliases : ItemSet} {view : AliasView σ}
    (h : make settings aliases inner = .ok view) (hinner : inner.Functional) :
    view.provider.Functional := by
  refine .ofNames ?_
  intro settings n vs context m v hv
  rcases lookup_cases h n with hentry | ⟨i, hentry, ht⟩ | ⟨i, s, hentry, ht⟩
  · rw [resolveName_of_none hentry] at hv
    cases hv
  · obtain ⟨-, rfl, -⟩ := eq_of_make h
    rw [resolveName_of_forwarded hentry ht] at hv
    exact hinner.name hv
  · obtain ⟨-, rfl, -⟩ := eq_of_make h
    cases vs with
    | nil =>
      rw [resolveName_of_target hentry ht] at hv
      exact hinner.selector hv
    | cons w ws =>
      rw [resolveName_of_arguments hentry ht (List.cons_ne_nil w ws)] at hv
      cases hv

theorem FilteredView.functional (hinner : inner.Functional) (infos : ItemSet) :
    (FilteredView.mk inner infos).provider.Functional := by
  have hname : ∀ {settings : Settings} {n : Name} {vs : List Value} {context : Value}
      {m : Memory σ} {v : Value},
      ((FilteredView.mk inner infos).resolveName (.ofName n vs context) settings m).1 = .ok v →
        ∃ f, v = .item (.function f) := by
    intro settings n vs context m v hv
    rw [resolveName_ofName] at hv
    split at hv
    · exact hinner.name hv
    · cases hv
  refine ⟨hname, fun hv => ?_⟩
  rw [provider_resolveSelector, resolveSelector_selector] at hv
  split at hv
  · obtain ⟨vs, m', hv⟩ := Selector.exists_of_evaluate_ok hv
    exact hname hv
  · cases hv

theorem Aggregate.functional_of_make {members : List (Member σ)} {a : Aggregate σ}
    {m m' : Memory σ} (h : make members context settings m = (.ok a, m'))
    (hmembers : ∀ x ∈ members, x.provider.Functional) : a.provider.Functional := by
  have howned := (forall_owned (J := fun _ => True)
    (R := fun _ owner found => owner.Functional ∧ ∃ f, found = .item (.function f))
    (fun x hx i _ _ _ v _ hv =>
      ⟨⟨hmembers x hx, (hmembers x hx).name (congrArg Prod.fst hv)⟩, trivial⟩) trivial h).1
  refine .ofNames ?_
  intro settings n vs context m v hv
  rw [resolveName_of_find] at hv
  split at hv
  · cases hv
  · next o ho =>
    obtain ⟨howner, f, hfound⟩ := howned o (List.mem_of_find?_eq_some ho)
    cases vs with
    | nil => exact ⟨f, (Except.ok.inj hv).symm.trans hfound⟩
    | cons w ws => exact howner.name hv

end Layers

namespace Provider

variable [DecidableEq ι] {T : Selector → Prop} {Q : Stores ι → Prop} {leaves : ι → Leaf}
  {p : Provider (Stores ι)}

/-- Whatever an assembled provider is asked, it answers with functions. -/
theorem Assembled.functional (h : p.Assembled T Q leaves) : p.Functional := by
  induction h with
  | leaf i h =>
    have hleaf := Leaf.functional_of_make h
    exact ⟨fun hv => hleaf.name hv, fun hv => hleaf.selector hv⟩
  | empty mode =>
    exact ⟨fun hv => (by cases hv), fun hv => (by cases hv)⟩
  | aliasView _ _ _ h ih => exact AliasView.functional_of_make h ih
  | @filteredView infos inner _ _ ih => exact FilteredView.functional ih infos.asItems
  | @renamedView _ infos inner view _ _ h ih =>
    obtain ⟨rfl, -⟩ := RenamedView.mode_of_make h
    exact view.renaming.functional ih _ _
  | @mergedView _ infos inner view _ _ h ih =>
    obtain ⟨rfl, -⟩ := MergedView.mode_of_make h
    exact view.renaming.functional ih _ _
  | aggregating _ _ h ih => exact Aggregate.functional_of_make h ih
  | numbered next _ ih => exact ⟨fun hv => ih.name hv, fun hv => ih.selector hv⟩

/-! ## Unknown names -/

/-- A provider to which names are unknown that it does not advertise. -/
def KnowsOnlyAdvertised (p : Provider σ) : Prop :=
  ∀ ⦃n : Name⦄, p.infos.set.containsName n.value = false →
    ∀ (settings : Settings) (vs : List Value) (context : Value) (m : Memory σ),
      (p.resolveName (.ofName n vs context) settings m).1 = .error (.unknownName (.name n))

end Provider

section Unknown

variable {inner : Provider σ}

theorem Leaf.knowsOnlyAdvertised {mode : CaseMode} {url : String} {functions : List Value}
    {leaf : Leaf} (h : make settings mode url functions = .ok leaf) :
    leaf.provider.KnowsOnlyAdvertised := by
  intro n hn settings vs context m
  show (leaf.resolveName (.ofName n vs context) settings m).1 = _
  cases hitem : leaf.function? (leaf.mode.fold n.value) with
  | none =>
    rw [resolveName_of_none hitem]
    rfl
  | some item =>
    have hfound : (leaf.provider.resolveName (.ofName n [] context) settings m).1 =
        .ok (.item item) := by
      show (leaf.resolveName (.ofName n [] context) settings m).1 = _
      rw [resolveName_nil hitem]
      rfl
    exact absurd ((faithful_of_make h).name hfound) (by simp [hn])

theorem AliasView.knowsOnlyAdvertised {aliases : ItemSet} {view : AliasView σ}
    (h : make settings aliases inner = .ok view) (hmode : aliases.mode = inner.mode)
    (hinfos : inner.infos.mode = inner.mode) (hinner : inner.KnowsOnlyAdvertised) :
    view.provider.KnowsOnlyAdvertised := by
  intro n hn settings vs context m
  have hnot : ¬ view.infos.set.containsName n.value = true := by
    rw [show view.infos.set.containsName n.value = false from hn]
    simp
  show (view.resolveName (.ofName n vs context) settings m).1 = _
  rcases lookup_cases h n with hentry | ⟨i, hentry, ht⟩ | ⟨i, s, hentry, ht⟩
  · rw [resolveName_of_none hentry]
    rfl
  · have hinnernot : inner.infos.set.containsName n.value = false := by
      by_contra hshown
      exact hnot (containsName_of_entry h hmode hinfos hentry fun _ => by simpa using hshown)
    obtain ⟨-, rfl, -⟩ := eq_of_make h
    rw [resolveName_of_forwarded hentry ht]
    exact hinner hinnernot settings vs context m
  · refine absurd (containsName_of_entry h hmode hinfos hentry fun hnone => ?_) hnot
    rw [ht] at hnone
    cases hnone

theorem FilteredView.knowsOnlyAdvertised (inner : Provider σ) (infos : ItemSet) :
    (FilteredView.mk inner infos).provider.KnowsOnlyAdvertised := by
  intro n hn settings vs context m
  have hdeclares : (FilteredView.mk inner infos).declares n = false := hn
  rw [provider_resolveName, resolveName_of_not_declares hdeclares]
  rfl

/-- If a table has no name that is not advertised, such names are unknown. -/
theorem Renaming.knowsOnlyAdvertised {names : NameTable} {resolver : Resolver σ} {infos : ItemSet}
    (h : Renaming inner names resolver)
    (hnames : ∀ n : Name, (names.get? (inner.mode.fold n.value)).isSome = true →
      infos.set.containsName n.value = true) :
    (Provider.ofNames inner.mode infos resolver).KnowsOnlyAdvertised := by
  intro n hn settings vs context m
  have hnone : names.get? (inner.mode.fold n.value) = none := by
    by_contra hsome
    have hshown := hnames n (Option.isSome_iff_ne_none.2 hsome)
    rw [show infos.set.containsName n.value = false from hn] at hshown
    cases hshown
  show (resolver (.ofName n vs context) settings m).1 = _
  rw [h.unknown hnone]
  rfl

theorem Aggregate.knowsOnlyAdvertised {members : List (Member σ)} {a : Aggregate σ}
    {m m' : Memory σ} (h : make members context settings m = (.ok a, m')) :
    a.provider.KnowsOnlyAdvertised := by
  intro n hn settings vs context m
  show (a.resolveName (.ofName n vs context) settings m).1 = _
  rw [resolveName_of_find]
  cases hfind : a.owned.find? (fun o => o.key == a.mode.fold n.value) with
  | none => rfl
  | some o =>
    have hshown := containsName_of_owned h (by rw [hfind]; rfl)
    rw [show a.infos.set.containsName n.value = false from hn] at hshown
    cases hshown

end Unknown

namespace Provider

/-- A name that a composition does not advertise is unknown to it. -/
theorem Composed.knowsOnlyAdvertised {p : Provider σ} (h : p.Composed) :
    p.KnowsOnlyAdvertised := by
  induction h with
  | leaf get set hleaf =>
    exact fun _ hn settings vs context m => Leaf.knowsOnlyAdvertised hleaf hn settings vs context _
  | empty mode => exact fun _ _ _ _ _ _ => rfl
  | aliasView hinner hmode h ih =>
    exact AliasView.knowsOnlyAdvertised h hmode hinner.faithful.mode ih
  | @filteredView infos inner _ _ _ => exact FilteredView.knowsOnlyAdvertised inner infos
  | @renamedView _ _ _ view _ h _ =>
    exact view.renaming.knowsOnlyAdvertised fun _ => RenamedView.containsName_of_wrapped h
  | @mergedView _ _ _ view hinner h _ =>
    exact view.renaming.knowsOnlyAdvertised fun _ =>
      MergedView.containsName_of_wrapped h hinner.faithful.mode
  | aggregating _ h _ => exact Aggregate.knowsOnlyAdvertised h
  | aggregate _ h ih =>
    rcases Merged.exists_of_aggregate h with ⟨x, hx, heq⟩ | ⟨a, heq, ha⟩
    · rw [heq]
      exact ih x hx
    · rw [heq]
      exact Aggregate.knowsOnlyAdvertised ha
  | @numbered p next _ ih =>
    intro n hn settings vs context m
    replace hn : (p.infos.settle.run next).1.set.containsName n.value = false := hn
    rw [(p.infos.containsName_settle next).2] at hn
    exact ih hn settings vs context m

/-! ### A view of a leaf -/

/-- A function that hands its arguments back. -/
def echo (text : String) (h : isName text.toList = true) : NamedFunction :=
  .make { value := text, mode := .insensitive, isName_value := h } .echo []

def echoFunctions : List NamedFunction :=
  [echo "f" (Eq.refl true), echo "h" (Eq.refl true), echo "k" (Eq.refl true)]

def echoes : Leaf :=
  match Leaf.make {} .insensitive "u" (echoFunctions.map (fun f => .item (.function f))) with
  | .ok leaf => leaf
  | .error _ => ⟨.insensitive, [], .empty .insensitive⟩

/-- The functions of the leaf under the names that they have. -/
def relabelled : Provider (Stores Unit) :=
  match RenamedView.make {} echoes.infos.values (Leaf.storing () echoes) with
  | .ok view => view.provider
  | .error _ => .empty .insensitive

theorem assembled_relabelled (T : Selector → Prop) (Q : Stores Unit → Prop) :
    relabelled.Assembled T Q (fun _ => echoes) := by
  have hmake : Leaf.make {} .insensitive "u" (echoFunctions.map (fun f => .item (.function f))) =
      .ok echoes := rfl
  have hleaf : (Leaf.storing () echoes).Assembled T Q (fun _ => echoes) := .leaf () hmake
  unfold relabelled
  split
  · next h => exact .renamedView hleaf rfl h
  · exact .empty _

end Provider

end FunctionCatalog
