import FunctionCatalog.Proofs.NamedSet.Change
import FunctionCatalog.Session.Sets

/-
  FunctionCatalog: what a change of a set of items can be.
  Whatever the change is, its result is the receiver, the empty set, or a set built of entries of
  the receiver and of items among the arguments (`change_cases`).
-/

namespace FunctionCatalog.ItemSet

variable {settings : Settings} {s t : ItemSet} {entries : List Item} {args : List Value}

/-- The items that are arguments of a change or in an argument. -/
def argumentItems (args : List Value) : List Item :=
  args.flatMap fun v =>
    match v with
    | .item i => [i]
    | v => (v.items?.getD []).filterMap Item.ofValue?

/-- A set is that of other entries in the mode of `s`, or `s` itself where that is equal to it. -/
def IsUpdate (settings : Settings) (s : ItemSet) (entries : List Item) (t : ItemSet) : Prop :=
  ∃ u, NamedSet.of settings s.mode entries = .ok u ∧
    (u.same s.set = true ∧ t = s ∨ u.same s.set = false ∧ t = { s with set := u })

theorem isUpdate_of_ofChange (h : s.ofChange (s.set.update settings entries) = .ok t) :
    IsUpdate settings s entries t := by
  obtain ⟨u, hu, rfl⟩ := exists_of_map_ok h
  obtain ⟨es, w, hes, hw, hchoice⟩ := NamedSet.exists_of_updateSteps (ok_of_mapError_ok hu)
  obtain rfl : entries = es := (List.map_inj_right fun _ _ => Except.ok.inj).1 hes
  refine ⟨w, hw, ?_⟩
  rcases hchoice with ⟨hsame, rfl⟩ | ⟨hdiffer, rfl⟩
  · exact .inl ⟨hsame, rfl⟩
  · exact .inr ⟨hdiffer, rfl⟩

theorem exists_isUpdate_of_updateSteps {steps : List (Except Failure Item)}
    (h : s.updateSteps settings steps = .ok t) :
    ∃ entries, steps = entries.map .ok ∧ IsUpdate settings s entries t := by
  obtain ⟨u, hu, rfl⟩ := exists_of_map_ok h
  obtain ⟨es, w, hes, hw, hchoice⟩ := NamedSet.exists_of_updateSteps hu
  refine ⟨es, hes, w, hw, ?_⟩
  rcases hchoice with ⟨hsame, rfl⟩ | ⟨hdiffer, rfl⟩
  · exact .inl ⟨hsame, rfl⟩
  · exact .inr ⟨hdiffer, rfl⟩

/-- A result is the receiver, the empty set, or built of entries of the receiver and of `taken`. -/
def IsChange (settings : Settings) (s : ItemSet) (taken : List Item) (t : ItemSet) : Prop :=
  t = s ∨ t = empty s.kind s.mode ∨
    ∃ entries, (∀ e ∈ entries, e ∈ s.entries ∨ e ∈ taken) ∧ IsUpdate settings s entries t

/-! ## The changes one by one -/

section Changes

variable {taken : List Item} {v : Value} {vs : List Value}

theorem isChange_of_update (hentries : ∀ e ∈ entries, e ∈ s.entries ∨ e ∈ taken)
    (h : s.ofChange (s.set.update settings entries) = .ok t) : IsChange settings s taken t :=
  .inr (.inr ⟨entries, hentries, isUpdate_of_ofChange h⟩)

/-- A change that only drops entries. -/
theorem isChange_of_keepIf {p : Item → Bool}
    (h : s.ofChange (s.set.keepIf settings p) = .ok t) : IsChange settings s taken t :=
  isChange_of_update (fun _ he => .inl (List.mem_filter.1 he).1) h

theorem isChange_of_atBound {k : LookupKey} {idle : Bool} {slice : String → Except Failure ItemSet}
    {rest : ItemSet} (hslice : ∀ folded, slice folded = .ok t → IsChange settings s taken t)
    (hrest : IsChange settings s taken rest) (h : atBound k idle slice rest = .ok t) :
    IsChange settings s taken t := by
  unfold atBound at h
  split at h
  · exact hslice _ h
  · split at h
    · cases h
      exact hrest
    · cases h

theorem mem_of_filterM {f : Item → Except Failure Bool} {es kept : List Item}
    (h : es.filterM f = .ok kept) : ∀ e ∈ kept, e ∈ es := by
  have haux : ∀ {es acc kept : List Item}, es.filterAuxM f acc = .ok kept →
      ∀ e ∈ kept, e ∈ es ∨ e ∈ acc := by
    intro es
    induction es with
    | nil =>
      intro acc kept h e he
      cases h
      exact .inr he
    | cons x es ih =>
      intro acc kept h e he
      obtain ⟨b, -, hrest⟩ := exists_of_bind_ok h
      rcases ih hrest e he with he | he
      · exact .inl (List.mem_cons_of_mem x he)
      · cases b with
        | false => exact .inr he
        | true =>
          rcases List.mem_cons.1 he with rfl | he
          · exact .inl List.mem_cons_self
          · exact .inr he
  obtain ⟨kept', hkept, hreverse⟩ := exists_of_bind_ok h
  obtain rfl := Except.ok.inj hreverse
  exact fun e he => (haux hkept e (List.mem_reverse.1 he)).resolve_right List.not_mem_nil

theorem mem_argumentItems_item {i : Item} (hv : .item i ∈ args) : i ∈ argumentItems args :=
  List.mem_flatMap.2 ⟨_, hv, List.mem_singleton_self i⟩

theorem item_of_ofValue {i : Item} (h : Item.ofValue v = .ok i) : v = .item i := by
  cases v <;> cases h
  rfl

/-- The items of a list that is an argument. -/
theorem mem_argumentItems_items {i : Item} (hv : v ∈ args) (hvs : itemsOf v = .ok vs)
    (hi : .item i ∈ vs) : i ∈ argumentItems args := by
  have hitems : v.items? = some vs := by
    cases h : v.items? with
    | none =>
      rw [itemsOf, h] at hvs
      cases hvs
    | some ws =>
      rw [itemsOf, h] at hvs
      cases hvs
      rfl
  refine List.mem_flatMap.2 ⟨v, hv, ?_⟩
  have hmem : i ∈ (v.items?.getD []).filterMap Item.ofValue? :=
    List.mem_filterMap.2 ⟨.item i, by rwa [hitems], rfl⟩
  cases v <;> first | exact hmem | cases hitems

theorem mem_of_mapM_ofValue {items : List Item} (h : vs.mapM Item.ofValue? = some items) :
    ∀ i ∈ items, .item i ∈ vs := by
  induction vs generalizing items with
  | nil =>
    cases h
    exact fun i hi => absurd hi List.not_mem_nil
  | cons v vs ih =>
    rw [List.mapM_cons] at h
    obtain ⟨j, hj, h⟩ := Option.bind_eq_some_iff.1 h
    obtain ⟨js, hjs, h⟩ := Option.bind_eq_some_iff.1 h
    cases h
    intro i hi
    rcases List.mem_cons.1 hi with rfl | hi
    · cases v <;> cases hj
      exact List.mem_cons_self
    · exact List.mem_cons_of_mem v (ih hjs i hi)

theorem isChange_of_concat (h : s.concat settings v = .ok t) :
    IsChange settings s (argumentItems [v]) t := by
  obtain ⟨i, hi, hupdate⟩ := exists_of_bind_ok h
  obtain rfl := item_of_ofValue hi
  refine isChange_of_update (fun e he => ?_) hupdate
  rcases List.mem_append.1 he with he | he
  · exact .inl he
  · exact .inr (List.mem_singleton.1 he ▸ mem_argumentItems_item (List.mem_singleton_self _))

theorem isChange_of_concatAll (hvs : itemsOf v = .ok vs) (h : s.concatAll settings vs = .ok t) :
    IsChange settings s (argumentItems [v]) t := by
  have hmem : ∀ i, .item i ∈ vs → i ∈ argumentItems [v] := fun i hi =>
    mem_argumentItems_items (List.mem_singleton_self v) hvs hi
  unfold concatAll at h
  split at h
  · next items hitems =>
    refine isChange_of_update (fun e he => ?_) h
    rcases List.mem_append.1 he with he | he
    · exact .inl he
    · exact .inr (hmem e (mem_of_mapM_ofValue hitems e he))
  · obtain ⟨entries, hsteps, hupdate⟩ := exists_isUpdate_of_updateSteps h
    refine .inr (.inr ⟨entries, fun e he => ?_, hupdate⟩)
    have hstep : (.ok e : Except Failure Item) ∈ s.entries.map .ok ++ vs.map Item.ofValue := by
      rw [hsteps]
      exact List.mem_map_of_mem he
    rcases List.mem_append.1 hstep with hstep | hstep
    · obtain ⟨e', he', heq⟩ := List.mem_map.1 hstep
      exact .inl (Except.ok.inj heq ▸ he')
    · obtain ⟨w, hw, heq⟩ := List.mem_map.1 hstep
      exact .inr (hmem e (item_of_ofValue heq ▸ hw))

theorem isChange_of_delete (h : s.delete settings v = .ok t) : IsChange settings s taken t := by
  unfold delete at h
  split at h
  · exact isChange_of_keepIf h
  · cases h
    exact .inl rfl

theorem isChange_of_replace {old new : Value} (h : s.replace settings old new = .ok t) :
    IsChange settings s (argumentItems [old, new]) t := by
  unfold replace at h
  split at h
  · next i =>
    split at h
    · next hcontains =>
      obtain ⟨j, hj, hreplace⟩ := exists_of_bind_ok h
      obtain rfl := item_of_ofValue hj
      rw [NamedSet.replace, if_pos hcontains] at hreplace
      refine isChange_of_update (fun e he => ?_) hreplace
      rcases List.mem_append.1 he with he | he
      · exact .inl (List.mem_filter.1 he).1
      · rw [List.mem_singleton.1 he]
        exact .inr (mem_argumentItems_item (List.mem_cons_of_mem _ (List.mem_singleton_self _)))
    · cases h
      exact .inl rfl
  · cases h
    exact .inl rfl

theorem isChange_of_concatOrReplace (h : s.concatOrReplace settings v = .ok t) :
    IsChange settings s (argumentItems [v]) t := by
  obtain ⟨i, hi, hupdate⟩ := exists_of_bind_ok h
  obtain rfl := item_of_ofValue hi
  refine isChange_of_update (fun e he => ?_) hupdate
  rcases List.mem_append.1 he with he | he
  · exact .inl (List.mem_filter.1 he).1
  · exact .inr (List.mem_singleton.1 he ▸ mem_argumentItems_item (List.mem_singleton_self _))

theorem isChange_of_headSet {high : Value} (h : s.headSet settings high = .ok t) :
    IsChange settings s taken t := by
  obtain ⟨k, -, h⟩ := exists_of_bind_ok h
  exact isChange_of_atBound (fun _ => isChange_of_keepIf) (.inl rfl) h

theorem isChange_of_tailSet {low : Value} (h : s.tailSet settings low = .ok t) :
    IsChange settings s taken t := by
  obtain ⟨k, -, h⟩ := exists_of_bind_ok h
  exact isChange_of_atBound (fun _ => isChange_of_keepIf) (.inl rfl) h

theorem isChange_of_subSet {low high : Value} (h : s.subSet settings low high = .ok t) :
    IsChange settings s taken t := by
  obtain ⟨k, -, h⟩ := exists_of_bind_ok h
  obtain ⟨l, -, h⟩ := exists_of_bind_ok h
  refine isChange_of_atBound (fun _ hlow => ?_) (.inl rfl) h
  exact isChange_of_atBound (fun _ => isChange_of_keepIf) (.inr (.inl rfl)) hlow

theorem isChange_of_deleteWhereNameStarts {start : Value}
    (h : s.deleteWhereNameStarts settings start = .ok t) : IsChange settings s taken t := by
  obtain ⟨kept, hkept, hupdate⟩ := exists_of_bind_ok h
  exact isChange_of_update (fun e he => .inl (mem_of_filterM hkept e he)) hupdate

theorem isChange_of_filter (h : s.filter settings vs = .ok t) : IsChange settings s taken t := by
  obtain ⟨held, -, h⟩ := exists_of_bind_ok h
  obtain ⟨kept, hkept, hupdate⟩ := exists_of_bind_ok h
  exact isChange_of_update (fun e he => .inl (mem_of_filterM hkept e he)) hupdate

theorem isChange_of_renameIfPresent (hvs : itemsOf v = .ok vs)
    (h : s.renameIfPresent settings vs = .ok t) :
    IsChange settings s (argumentItems [v]) t := by
  obtain ⟨held, hheld, h⟩ := exists_of_bind_ok h
  obtain ⟨entries, hsteps, hupdate⟩ := exists_isUpdate_of_updateSteps h
  refine .inr (.inr ⟨entries, fun e he => ?_, hupdate⟩)
  have hstep : (.ok e : Except Failure Item) ∈ entries.map .ok := List.mem_map_of_mem he
  rw [← hsteps] at hstep
  obtain ⟨i, hi, hfound⟩ := List.mem_map.1 hstep
  obtain ⟨token, -, hfound⟩ := exists_of_bind_ok hfound
  obtain rfl := Except.ok.inj hfound
  cases hfind : Tokened.find? held token with
  | none => exact .inl hi
  | some j =>
    -- what was found with the token is the item of one of the arguments
    obtain ⟨w, hw, rfl⟩ := Option.map_eq_some_iff.1 hfind
    obtain ⟨u, hu, hw⟩ := exists_of_mem_mapM hheld w (List.mem_of_find?_eq_some hw)
    obtain ⟨k, hk, hw⟩ := exists_of_bind_ok hw
    obtain ⟨key, -, hw⟩ := exists_of_bind_ok hw
    obtain rfl := Except.ok.inj hw
    obtain rfl := item_of_ofValue hk
    exact .inr (mem_argumentItems_items (List.mem_singleton_self v) hvs hu)

end Changes

/-! ## All changes -/

/-- Whatever a change is, its result is the receiver, the empty set, or built of entries of the
receiver and of items among the arguments. -/
theorem change_cases {c : SetChange} (h : s.change settings c args = .ok t) :
    IsChange settings s (argumentItems args) t := by
  unfold change at h
  split at h
  · exact isChange_of_concat h
  · obtain ⟨vs, hvs, h⟩ := exists_of_bind_ok h
    exact isChange_of_concatAll hvs h
  · exact isChange_of_delete h
  · obtain ⟨vs, -, h⟩ := exists_of_bind_ok h
    exact isChange_of_keepIf h
  · exact isChange_of_replace h
  · exact isChange_of_subSet h
  · exact isChange_of_headSet h
  · exact isChange_of_tailSet h
  · exact isChange_of_deleteWhereNameStarts h
  · split at h
    · cases h
      exact .inl rfl
    · cases h
  · obtain ⟨vs, -, h⟩ := exists_of_bind_ok h
    exact isChange_of_filter h
  · obtain ⟨vs, hvs, h⟩ := exists_of_bind_ok h
    exact isChange_of_renameIfPresent hvs h
  · exact isChange_of_concatOrReplace h
  · obtain ⟨vs, -, h⟩ := exists_of_bind_ok h
    obtain ⟨names, -, h⟩ := exists_of_bind_ok h
    exact isChange_of_keepIf h
  · obtain ⟨vs, -, h⟩ := exists_of_bind_ok h
    obtain ⟨names, -, h⟩ := exists_of_bind_ok h
    exact isChange_of_keepIf h
  · cases h

end FunctionCatalog.ItemSet
