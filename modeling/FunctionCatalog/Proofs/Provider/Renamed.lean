import FunctionCatalog.Proofs.Provider.Originals
import FunctionCatalog.Proofs.Provider.Relaying
import FunctionCatalog.Session.Providers

/-
  FunctionCatalog: the two tables of the renaming view.
  The view is given new names for the tokens of a catalog. One table leads from a new name to the
  first name of its token, the other one from a wrapped name to the first new name that leads there.
  Either side may have a token more than once. Whatever the renames are, the new names that are found
  lead back (`wrapped_of_renamed`), and where no token is renamed twice all advertised names do
  (`renamed_of_wrapped`).
-/

namespace FunctionCatalog

variable {σ : Type} {settings : Settings} {inner : Provider σ} {catalog renames shown : InfoSet}
  {r : Info}

namespace InfoSet
open Entry

variable {token : String} {n : Name}

/-! ## The first name of a token -/

/-- The first name with a token. -/
def firstName? (catalog : InfoSet) (token : String) : Option Name :=
  (catalog.withToken token).head?.map (·.name)

theorem exists_of_firstName (h : catalog.firstName? token = some n) :
    ∃ i, (catalog.withToken token).head? = some i ∧ i ∈ catalog.entries ∧ i.token = token ∧
      i.name = n := by
  obtain ⟨i, hi, rfl⟩ := Option.map_eq_some_iff.1 h
  obtain ⟨hmem, htoken⟩ := mem_withToken.1 (List.mem_of_head? hi)
  exact ⟨i, hi, hmem, htoken, rfl⟩

theorem isSome_firstName (catalog : InfoSet) (token : String) :
    (catalog.firstName? token).isSome = catalog.entries.any (fun i => i.token == token) := by
  rw [firstName?, Option.isSome_map, withToken, List.head?_filter, Bool.eq_iff_iff,
    List.find?_isSome, List.any_eq_true]

/-- The entries whose token an earlier entry has already. -/
def repeated (catalog : InfoSet) : List Info :=
  catalog.entries.filter
    (fun i => catalog.entries.any (fun j => j.token == i.token && key j < key i))

end InfoSet

namespace RenamedView
open Entry

/-! ## What the view shows -/

/-- The renames whose token the catalog has. -/
theorem map_paired (catalog renames : InfoSet) :
    (renames.entries.filterMap (paired? catalog)).map (·.1) =
      renames.entries.filter (fun r => catalog.entries.any (fun i => i.token == r.token)) := by
  rw [List.map_filterMap, ← List.filterMap_eq_filter]
  refine congrArg (List.filterMap · renames.entries) (funext fun r => ?_)
  have hsome := catalog.isSome_firstName r.token
  rw [InfoSet.firstName?, Option.isSome_map] at hsome
  rw [paired?, Option.map_map, Option.guard, ← hsome]
  cases (catalog.withToken r.token).head? <;> rfl

/-- The view can always be made for renames in the mode of the provider. -/
theorem exists_make (settings : Settings) (hcatalog : inner.infos = catalog.asItems)
    (hrenames : renames.mode = inner.mode) :
    ∃ (view : RenamedView σ) (shown : InfoSet),
      make settings renames.values inner = .ok view ∧ view.infos = shown.asItems ∧
        shown.mode = inner.mode ∧ shown.entries =
          renames.entries.filter (fun r => catalog.entries.any (fun i => i.token == r.token)) := by
  have hmodes : ∀ r ∈ (renames.entries.filterMap (paired? catalog)).map (·.1),
      r.name.mode = inner.mode := by
    rw [map_paired]
    exact fun r hr => (renames.mode_of_mem r (List.mem_filter.1 hr).1).trans hrenames
  have hascending : AscendingBy key ((renames.entries.filterMap (paired? catalog)).map (·.1)) := by
    rw [map_paired]
    exact List.Pairwise.sublist List.filter_sublist renames.ascending
  obtain ⟨shown, hshown, hmode, hentries⟩ :=
    NamedSet.exists_catalog_of settings hmodes hascending
  rw [map_paired] at hentries
  have hmake : make settings renames.values inner = _ := make_eq hcatalog
  rw [hshown] at hmake
  exact ⟨_, shown, hmake, rfl, hmode, hentries⟩

/-! ## From a new name to a wrapped one and back -/

section Tables

variable {view : RenamedView σ} {n o : Name}

theorem wrapped_of_mem (hcatalog : inner.infos = catalog.asItems)
    (h : make settings renames.values inner = .ok view) (hr : r ∈ renames.entries)
    (ho : catalog.firstName? r.token = some o)
    (hn : inner.mode.fold n.value = inner.mode.fold r.name.value) :
    view.wrapped? n.value = some o := by
  obtain ⟨i, hi, -, -, rfl⟩ := InfoSet.exists_of_firstName ho
  have hget := wrapped_of_make hcatalog h hr hi hn
  rwa [← (exists_of_make hcatalog h).1] at hget

/-- Behind a new name there is the first name of its token, and behind no other name there is
any. -/
theorem exists_of_wrapped (hcatalog : inner.infos = catalog.asItems)
    (h : make settings renames.values inner = .ok view) (hn : view.wrapped? n.value = some o) :
    ∃ r ∈ renames.entries, inner.mode.fold r.name.value = inner.mode.fold n.value ∧
      catalog.firstName? r.token = some o := by
  obtain ⟨hinner, hnames, -⟩ := exists_of_make hcatalog h
  have hmem := NameTable.mem_of_get hn
  rw [hnames, List.mem_reverse, hinner] at hmem
  obtain ⟨p, hp, heq⟩ := List.mem_map.1 hmem
  obtain ⟨hname, rfl⟩ := Prod.mk.inj heq
  obtain ⟨r, hr, hpair⟩ := List.mem_filterMap.1 hp
  obtain ⟨i, hi, rfl⟩ := Option.map_eq_some_iff.1 hpair
  exact ⟨r, hr, hname, congrArg (Option.map Info.name) hi⟩

/-- A wrapped name has the first new name that leads to it. -/
theorem renamed_eq (hcatalog : inner.infos = catalog.asItems)
    (h : make settings renames.values inner = .ok view) (o : Name) :
    view.renamed? o.value = (renames.entries.find? (fun r => (catalog.firstName? r.token).any
      (fun w => inner.mode.fold w.value == inner.mode.fold o.value))).map (·.name) := by
  rw [make_eq hcatalog] at h
  obtain ⟨visible, -, rfl⟩ := exists_of_map_ok h
  rw [renamed?, NameTable.get?, List.find?_map, List.find?_filterMap, Option.map_map]
  have hfirst : (fun r => (paired? catalog r).any ((fun e : String × Name =>
      e.1 == inner.mode.fold o.value) ∘ fun p => (inner.mode.fold p.2.value, p.1.name))) =
        fun r => (catalog.firstName? r.token).any
          (fun w => inner.mode.fold w.value == inner.mode.fold o.value) := by
    funext r
    rw [paired?, InfoSet.firstName?, Option.any_map, Option.any_map]
    rfl
  rw [hfirst]
  cases hfind : renames.entries.find? (fun r => (catalog.firstName? r.token).any
      (fun w => inner.mode.fold w.value == inner.mode.fold o.value)) with
  | none => rfl
  | some r =>
    have hany := List.find?_some hfind
    rw [InfoSet.firstName?, Option.any_map] at hany
    obtain ⟨i, hi, -⟩ := (Option.any_eq_true _ _).1 hany
    rw [Option.bind_some, paired?, hi]
    rfl

theorem exists_of_renamed (hcatalog : inner.infos = catalog.asItems)
    (h : make settings renames.values inner = .ok view) (hn : view.renamed? o.value = some n) :
    ∃ r ∈ renames.entries, r.name = n ∧ ∃ w, catalog.firstName? r.token = some w ∧
      inner.mode.fold w.value = inner.mode.fold o.value := by
  rw [renamed_eq hcatalog h] at hn
  obtain ⟨r, hfind, rfl⟩ := Option.map_eq_some_iff.1 hn
  have hany := List.find?_some hfind
  obtain ⟨w, hw, hfold⟩ := (Option.any_eq_true _ _).1 hany
  exact ⟨r, List.mem_of_find?_eq_some hfind, rfl, w, hw, beq_iff_eq.1 hfold⟩

/-- A new name of a wrapped one leads back to it. -/
theorem wrapped_of_renamed (hcatalog : inner.infos = catalog.asItems)
    (hmode : catalog.mode = inner.mode) (h : make settings renames.values inner = .ok view)
    (hn : view.renamed? o.value = some n) :
    ∃ o', view.wrapped? n.value = some o' ∧ o'.same o = true := by
  obtain ⟨r, hr, rfl, w, hw, hfold⟩ := exists_of_renamed hcatalog h hn
  refine ⟨w, wrapped_of_mem hcatalog h hr hw rfl, NamedSet.same_of_fold ?_⟩
  obtain ⟨i, -, hi, -, rfl⟩ := InfoSet.exists_of_firstName hw
  rwa [show i.name.mode = inner.mode from (catalog.mode_of_mem i hi).trans hmode]

/-- Where no token is renamed twice, the wrapped name of a new one leads back to it. -/
theorem renamed_of_wrapped (hcatalog : inner.infos = catalog.asItems)
    (hmode : catalog.mode = inner.mode) (hrenames : renames.mode = inner.mode)
    (h : make settings renames.values inner = .ok view)
    (hdistinct : (renames.entries.map (·.token)).Nodup) (hn : view.wrapped? n.value = some o) :
    ∃ n', view.renamed? o.value = some n' ∧ n'.same n = true := by
  obtain ⟨r, hr, hname, ho⟩ := exists_of_wrapped hcatalog h hn
  have hfound : (view.renamed? o.value).isSome = true := by
    rw [renamed_eq hcatalog h, Option.isSome_map, List.find?_isSome]
    exact ⟨r, hr, (Option.any_eq_true _ _).2 ⟨o, ho, beq_self_eq_true _⟩⟩
  obtain ⟨n', hn'⟩ := Option.isSome_iff_exists.1 hfound
  obtain ⟨r', hr', rfl, w, hw, hfold⟩ := exists_of_renamed hcatalog h hn'
  -- both renames lead to one entry of the catalog, so they have one token
  obtain ⟨i, -, hi, htoken, rfl⟩ := InfoSet.exists_of_firstName ho
  obtain ⟨j, -, hj, htoken', rfl⟩ := InfoSet.exists_of_firstName hw
  have hkey : key j = key i := by
    show j.name.mode.fold j.name.value = i.name.mode.fold i.name.value
    rw [show j.name.mode = inner.mode from (catalog.mode_of_mem j hj).trans hmode,
      show i.name.mode = inner.mode from (catalog.mode_of_mem i hi).trans hmode, hfold]
  obtain rfl := catalog.ascending.eq_of_key hj hi hkey
  obtain rfl := List.inj_on_of_nodup_map hdistinct hr' hr (htoken'.symm.trans htoken)
  refine ⟨r'.name, hn', NamedSet.same_of_fold ?_⟩
  rwa [show r'.name.mode = inner.mode from (renames.mode_of_mem r' hr').trans hrenames]

end Tables

/-! ## Warnings -/

/-- Of entries in order, those in front of an element are those with a smaller key. -/
theorem any_lt_eq {xs ys : List Info} {i : Info} (h : AscendingBy key (xs ++ i :: ys))
    (p : Info → Bool) :
    (xs ++ i :: ys).any (fun j => p j && key j < key i) = xs.any p := by
  obtain ⟨-, hys, hxs⟩ := List.pairwise_append.1 h
  have hafter : (i :: ys).any (fun j => p j && key j < key i) = false := by
    refine List.any_eq_false.2 fun j hj => ?_
    have hnot : ¬ key j < key i := by
      rcases List.mem_cons.1 hj with rfl | hj
      · exact String.lt_irrefl _
      · exact fun hlt => String.lt_irrefl _
          (String.lt_trans hlt ((List.pairwise_cons.1 hys).1 j hj))
    simp [hnot]
  have hbefore : xs.any (fun j => p j && key j < key i) = xs.any p := by
    rw [Bool.eq_iff_iff, List.any_eq_true, List.any_eq_true]
    refine exists_congr fun j => and_congr_right fun hj => ?_
    simp [hxs j hj i List.mem_cons_self]
  rw [List.any_append, hafter, hbefore, Bool.or_false]

/-- Once the entries `done` have been seen, each of the rest that repeats the token of an entry in
front of it gives one warning. -/
theorem warnings_of_seen {done rest seen : List Info} (h : AscendingBy key (done ++ rest))
    (hseen : ∀ token, seen.find? (fun j => j.token == token) =
      done.find? (fun j => j.token == token)) :
    warnings (seen.map Info.tokened) (rest.map .info) =
      (rest.filter (fun i => (done ++ rest).any
        (fun j => j.token == i.token && key j < key i))).map
          (fun i => warning (.text i.token)
            (.info (((done ++ rest).find? (fun j => j.token == i.token)).getD i)) (.info i)) := by
  induction rest generalizing done seen with
  | nil => rfl
  | cons i rest ih =>
    have happend : done ++ i :: rest = (done ++ [i]) ++ rest := by simp
    have hkey : (Item.info i).tokenKey = .ok (.text i.token) := rfl
    rw [List.map_cons, warnings, hkey, List.filter_cons, any_lt_eq h (fun j => j.token == i.token)]
    dsimp only
    rw [Tokened.find?_map_tokened, hseen]
    cases hfind : done.find? (fun j => j.token == i.token) with
    | none =>
      have hnew : done.any (fun j => j.token == i.token) = false :=
        List.any_eq_false.2 (List.find?_eq_none.1 hfind)
      rw [hnew, if_neg Bool.false_ne_true, happend]
      rw [happend] at h
      have hnext : ∀ token, (seen ++ [i]).find? (fun j => j.token == token) =
          (done ++ [i]).find? (fun j => j.token == token) := fun token => by
        rw [List.find?_append, List.find?_append, hseen]
      rw [← ih h hnext, List.map_append]
      rfl
    | some first =>
      have htoken := List.find?_some hfind
      have hold : done.any (fun j => j.token == i.token) = true :=
        List.any_eq_true.2 ⟨first, List.mem_of_find?_eq_some hfind, htoken⟩
      have hfirst : ((done ++ i :: rest).find? (fun j => j.token == i.token)).getD i = first := by
        rw [List.find?_append, hfind]
        rfl
      rw [hold, if_pos rfl, List.map_cons, hfirst, happend]
      rw [happend] at h
      refine congrArg (List.cons _) (ih h fun token => ?_)
      rw [List.find?_append, hseen]
      by_cases heq : i.token = token
      · rw [← heq, hfind]
        rfl
      · rw [List.find?_cons_of_neg (by simpa using heq), List.find?_nil, Option.or_none]

/-- One warning for each entry of a catalog whose token an earlier entry has already. -/
theorem warnings_catalog (catalog : InfoSet) :
    warnings [] catalog.asItems.entries =
      catalog.repeated.map (fun i => warning (.text i.token)
        (.info ((catalog.withToken i.token).head?.getD i)) (.info i)) := by
  have hascending : AscendingBy key ([] ++ catalog.entries) := catalog.ascending
  simp only [InfoSet.withToken, List.head?_filter]
  exact warnings_of_seen hascending fun _ => rfl

end RenamedView

/-! ## Warnings in a session -/

namespace Run

variable {α β : Type} {s s' : Session}

theorem run_bind_ok {x : Run α} {a : α} (h : x.run.run s = (.ok a, s')) (f : α → Run β) :
    (x >>= f).run.run s = (f a).run.run s' := by
  rw [ExceptT.run_bind, StateT.run_bind, h]
  rfl

theorem run_bind_error {x : Run α} {e : Failure} (h : x.run.run s = (.error e, s'))
    (f : α → Run β) : (x >>= f).run.run s = (.error e, s') := by
  rw [ExceptT.run_bind, StateT.run_bind, h]
  rfl

/-- Issues no warning. -/
def Silent (x : Run α) : Prop :=
  ∀ s : Session, (x.run.run s).2.warnings = s.warnings

theorem Silent.bind {x : Run α} {f : α → Run β} (hx : Silent x) (hf : ∀ a, Silent (f a)) :
    Silent (x >>= f) := by
  intro s
  have hfirst := hx s
  rcases hrun : x.run.run s with ⟨e | a, t⟩
  · rw [hrun] at hfirst
    rw [run_bind_error hrun]
    exact hfirst
  · rw [hrun] at hfirst
    rw [run_bind_ok hrun]
    exact (hf a t).trans hfirst

theorem silent_pure (a : α) : Silent (pure a) :=
  fun _ => rfl

theorem silent_ofExcept (x : Except Failure α) : Silent (ofExcept x : Run α) := by
  intro s
  cases x <;> rfl

theorem silent_settings : Silent Run.settings :=
  fun _ => rfl

theorem silent_ofSupply (x : Supply α) : Silent (ofSupply x) :=
  fun _ => rfl

theorem silent_held (v : Value) : Silent (held v) := by
  unfold held
  split
  · exact Silent.bind (fun _ => rfl) fun s => silent_ofExcept _
  · exact fun _ => rfl

theorem silent_hold (kind : ProviderKind) (provider : Provider World) (inside : Inside) :
    Silent (hold kind provider inside) :=
  (silent_ofSupply _).bind fun _ => (silent_ofSupply _).bind fun _ =>
    (silent_ofExcept _).bind fun _ => Silent.bind (fun _ => rfl) fun _ => silent_pure _

theorem run_warn (texts : List String) (s : Session) :
    (texts.forM warn).run.run s = (.ok (), { s with warnings := s.warnings ++ texts }) := by
  induction texts generalizing s with
  | nil =>
    rw [List.append_nil]
    rfl
  | cons text texts ih =>
    show (warn text >>= fun _ => texts.forM warn).run.run s = _
    have hwarn : (warn text).run.run s =
        (.ok (), { s with warnings := s.warnings ++ [text] }) := rfl
    rw [run_bind_ok hwarn, ih, List.append_assoc]
    rfl

/-- Making a renaming view issues the warnings about the catalog of the provider, and no others. -/
theorem warnings_renamedView {infos provider : Value} {h : Held}
    (hheld : (held provider).run.run s = (.ok h, s')) :
    ((renamedView infos provider).run.run s).2.warnings =
      s.warnings ++ RenamedView.warnings [] h.provider.infos.entries := by
  have hs' : s'.warnings = s.warnings := by
    rw [← silent_held provider s, hheld]
  have hrest : Silent (do
      let _ ← ofExcept h.provider.infos.tokened
      let view ← ofExcept (RenamedView.make (← Run.settings) (← items infos) h.provider)
      hold .renamed view.provider (.renames view)) :=
    (silent_ofExcept _).bind fun _ => silent_settings.bind fun _ => (silent_ofExcept _).bind fun _ =>
      (silent_ofExcept _).bind fun _ => silent_hold _ _ _
  unfold renamedView
  rw [run_bind_ok hheld, run_bind_ok (run_warn _ s')]
  refine (hrest _).trans ?_
  rw [hs']

end Run

/-! ## The view -/

/-- A view of renames in the mode of a provider can always be made. It shows exactly the renames
whose token the catalog has. Behind a new name there is the first name of its token, and behind any
other name none; a wrapped name has the first new name that leads to it. What has a new name is led
back to from there, and so is every advertised name where no token is renamed twice. A name is
resolved by a single request for the name behind it, and refused without one where there is none.
Making the view in a session issues one warning for each entry of the catalog whose token an earlier
one has already. -/
theorem renamed_view (hcatalog : inner.infos = catalog.asItems)
    (hmode : catalog.mode = inner.mode) (hrenames : renames.mode = inner.mode) :
    ∃ (view : RenamedView (List Request × σ)) (shown : InfoSet),
      RenamedView.make settings renames.values inner.watched = .ok view ∧
      view.infos = shown.asItems ∧ shown.mode = inner.mode ∧
      shown.entries =
        renames.entries.filter (fun r => catalog.entries.any (fun i => i.token == r.token)) ∧
      (∀ r ∈ shown.entries, ∀ n : Name, inner.mode.fold n.value = inner.mode.fold r.name.value →
        ∃ o, catalog.firstName? r.token = some o ∧ view.wrapped? n.value = some o) ∧
      (∀ n : Name, shown.containsName n.value = false → view.wrapped? n.value = none) ∧
      (∀ o : Name, view.renamed? o.value = (renames.entries.find? (fun r =>
        (catalog.firstName? r.token).any
          (fun w => inner.mode.fold w.value == inner.mode.fold o.value))).map (·.name)) ∧
      (∀ o n : Name, view.renamed? o.value = some n →
        ∃ o', view.wrapped? n.value = some o' ∧ o'.same o = true) ∧
      ((renames.entries.map (·.token)).Nodup → ∀ n : Name, shown.containsName n.value = true →
        ∃ o n', view.wrapped? n.value = some o ∧ view.renamed? o.value = some n' ∧
          n'.same n = true) ∧
      (∀ n o : Name, view.wrapped? n.value = some o → Relays inner view.resolveName n o) ∧
      (∀ n : Name, view.wrapped? n.value = none → Refuses view.resolveName n) ∧
      ∀ (infos provider : Value) (s s' : Session) (h : Held),
        (Run.held provider).run.run s = (.ok h, s') → h.provider.infos = inner.infos →
          ((Run.renamedView infos provider).run.run s).2.warnings =
            s.warnings ++ catalog.repeated.map (fun i => RenamedView.warning (.text i.token)
              (.info ((catalog.withToken i.token).head?.getD i)) (.info i)) := by
  have hwatched : inner.watched.infos = catalog.asItems := hcatalog
  obtain ⟨view, shown, hmake, hinfos, hshown, hentries⟩ :=
    RenamedView.exists_make settings hwatched hrenames
  have hview : view.inner = inner.watched := (RenamedView.mode_of_make hmake).1
  have hfold : ∀ text, view.inner.mode.fold text = inner.mode.fold text := fun text => by
    rw [hview]
    rfl
  have hwrapped : ∀ r ∈ shown.entries, ∀ n : Name,
      inner.mode.fold n.value = inner.mode.fold r.name.value →
        ∃ o, catalog.firstName? r.token = some o ∧ view.wrapped? n.value = some o := by
    intro r hr n hn
    rw [hentries, List.mem_filter] at hr
    obtain ⟨o, ho⟩ := Option.isSome_iff_exists.1
      ((catalog.isSome_firstName r.token).trans hr.2)
    exact ⟨o, ho, RenamedView.wrapped_of_mem hwatched hmake hr.1 ho hn⟩
  have hcontains : ∀ n : Name, shown.containsName n.value = true → ∃ r ∈ shown.entries,
      inner.mode.fold n.value = inner.mode.fold r.name.value := by
    intro n hn
    obtain ⟨r, hr⟩ := Option.isSome_iff_exists.1 hn
    exact ⟨r, List.mem_of_find?_eq_some hr, (NamedSet.fold_of_get hshown hr).symm⟩
  refine ⟨view, shown, hmake, hinfos, hshown, hentries, hwrapped, fun n hn => ?_,
    RenamedView.renamed_eq hwatched hmake, fun o n => RenamedView.wrapped_of_renamed hwatched hmode
      hmake, fun hdistinct n hn => ?_, fun n o hn => ?_, fun n hn => ?_,
    fun infos provider s s' h hheld hinner => ?_⟩
  · -- what has a wrapped name is advertised
    refine Option.not_isSome_iff_eq_none.1 fun hsome => ?_
    have hfound := RenamedView.containsName_of_wrapped hmake hsome
    rw [hinfos, ItemSet.containsName_asItems, hn] at hfound
    cases hfound
  · obtain ⟨r, hr, hfold'⟩ := hcontains n hn
    obtain ⟨o, -, ho⟩ := hwrapped r hr n hfold'
    obtain ⟨n', hn', hsame⟩ :=
      RenamedView.renamed_of_wrapped hwatched hmode hrenames hmake hdistinct ho
    exact ⟨o, n', ho, hn', hsame⟩
  · have hrenaming := view.renaming
    rw [RenamedView.wrapped?, hfold] at hn
    rw [hview] at hrenaming
    exact hrenaming.relays hn
  · have hrenaming := view.renaming
    rw [RenamedView.wrapped?, hfold] at hn
    rw [hview] at hrenaming
    exact hrenaming.refuses hn
  · rw [Run.warnings_renamedView hheld, hinner, hcatalog, RenamedView.warnings_catalog]

open Aggregate in
/-- A new name for a token that the catalog has twice. -/
theorem renamed_view_twice :
    noting.infos = twice.asItems ∧ twice.mode = noting.mode ∧ onlyX.mode = noting.mode ∧
      (onlyX.entries.map (·.token)).Nodup ∧ twice.repeated.map (·.name.value) = ["b"] ∧
      ∃ (view : RenamedView (List Request × (List Call × Unit))) (shown : InfoSet) (o : Name),
        RenamedView.make {} onlyX.values noting.watched = .ok view ∧
        view.infos = shown.asItems ∧ shown.entries = [letterX] ∧
        view.wrapped? letterX.name.value = some o ∧ o.value = "a" ∧
        view.renamed? o.value = some letterX.name ∧ Relays noting view.resolveName letterX.name o := by
  obtain ⟨view, shown, hmake, hinfos, -, hentries, hwrapped, -, hrenamed, -, -, hrelays, -⟩ :=
    renamed_view (show noting.infos = twice.asItems from rfl) (show twice.mode = noting.mode from rfl)
      (show onlyX.mode = noting.mode from rfl)
  have hshown : shown.entries = [letterX] := hentries.trans (by decide +kernel)
  have hmem : letterX ∈ shown.entries := hshown ▸ List.mem_singleton_self letterX
  obtain ⟨o, ho, hx⟩ := hwrapped letterX hmem letterX.name rfl
  have hfirst : (twice.firstName? letterX.token).map (·.value) = some "a" := by
    decide +kernel
  have hvalue : o.value = "a" := by
    rw [ho] at hfirst
    exact Option.some.inj hfirst
  refine ⟨rfl, rfl, rfl, by decide, by decide +kernel, view, shown, o, hmake, hinfos, hshown, hx,
    hvalue, ?_, hrelays letterX.name o hx⟩
  rw [hrenamed, hvalue]
  decide +kernel

end FunctionCatalog
