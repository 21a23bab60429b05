import FunctionCatalog.Proofs.ItemSet.Conflict
import FunctionCatalog.Proofs.NamedSet.FiniteMap

/-
  FunctionCatalog: sets of infos and of aliases as finite maps.
  To the items of its kind that are in its mode (`Suits`) a set is a finite map from folded names to
  entries, and its changes are those of a map (`ActsAsMap`). Only where several entries come at once
  an alias of the set whose target is not in the mode can hide that they differ: sameness is not
  transitive across modes, and each of them is compared with that alias alone
  (`hidden_conflict`).
-/

namespace FunctionCatalog.ItemSet

variable {s : ItemSet} {e : Item} {es : List Item}

/-! ## What a set is to items of its kind and mode -/

/-- Two sets of a kind and a mode in which all but one name is looked up alike. -/
structure AgreesBut (s t : ItemSet) (folded : String) : Prop where
  kind : t.kind = s.kind
  mode : t.mode = s.mode
  lookup : ∀ v k, LookupKey.ofValue s.mode v = .ok (.name k) → k ≠ folded →
    t.lookup v = s.lookup v

/-- Two changes fail alike, or answer sets of a kind that are equal. -/
def SameOutcome (x y : Except Failure ItemSet) : Prop :=
  (∃ f, x = .error f ∧ y = .error f) ∨
    ∃ t u, x = .ok t ∧ y = .ok u ∧ t.kind = u.kind ∧ t.set.same u.set = true

/-- The changes of a set are those of a finite map from folded names to entries. -/
structure ActsAsMap (settings : Settings) (s : ItemSet) : Prop where
  /-- An item is refused exactly where there is another entry of its name. -/
  concat_refuses : ∀ e, s.Suits e →
    (s.concat settings (.item e) = .error (.rejection (.duplicateNames [e.name])) ↔
      ∃ d, s.lookup (.name e.name) = .ok (some d) ∧ d.same e = false)
  concat_takes : ∀ e, s.Suits e →
    (¬ ∃ d, s.lookup (.name e.name) = .ok (some d) ∧ d.same e = false) →
    ∃ t, s.concat settings (.item e) = .ok t ∧ s.AgreesBut t (s.mode.fold e.name.value) ∧
      ∃ d, t.lookup (.name e.name) = .ok (some d) ∧ d.same e = true
  /-- Several items are refused for those that differ from the first entry of their name. -/
  concatAll_refuses : ∀ es, (∀ e ∈ es, s.Suits e) → NamedSet.clashing s.entries es ≠ [] →
    s.concatAll settings (es.map .item) = .error (.rejection (.duplicateNames
      (sortDistinctBy Name.key ((NamedSet.clashing s.entries es).map Item.name))))
  concatAll_takes : ∀ es, (∀ e ∈ es, s.Suits e) → NamedSet.clashing s.entries es = [] →
    ∃ t, s.concatAll settings (es.map .item) = .ok t ∧
      es.foldlM (fun u e => u.concat settings (.item e)) s = .ok t
  /-- That comes to any two entries that share a name exactly for the sets that ignore case or have
  all targets in their mode. -/
  concatAll_refuses_iff : (∀ es, (∀ e ∈ es, s.Suits e) →
      ((∃ names, s.concatAll settings (es.map .item) =
        .error (.rejection (.duplicateNames names))) ↔ s.Conflict es)) ↔
    s.mode = .insensitive ∨ ∀ e ∈ s.entries, s.Suits e
  /-- The entry of a name is dropped exactly if it is equal. -/
  delete : ∀ e, s.Suits e → ∃ t, s.delete settings (.item e) = .ok t ∧
    s.AgreesBut t (s.mode.fold e.name.value) ∧
    ∃ found, s.lookup (.name e.name) = .ok found ∧
      t.lookup (.name e.name) = .ok (found.filter (fun d => !d.same e))
  deleteAll : ∀ es : List Item, ∃ t, s.deleteAll settings (es.map .item) = .ok t ∧
    es.foldlM (fun u e => u.delete settings (.item e)) s = .ok t
  replace_absent : ∀ old new, s.contains (.item old) = false →
    s.replace settings (.item old) (.item new) = .ok s
  replace : ∀ old new, s.Suits new → s.contains (.item old) = true →
    SameOutcome (do (← s.delete settings (.item old)).concat settings (.item new))
      (s.replace settings (.item old) (.item new))
  concatOrReplace : ∀ e, s.Suits e → ∃ t, s.concatOrReplace settings (.item e) = .ok t ∧
    s.AgreesBut t (s.mode.fold e.name.value) ∧
    ∃ d, t.lookup (.name e.name) = .ok (some d) ∧ d.same e = true
  /-- What is left has none of the names. -/
  deleteNames : ∀ (vs : List Value) (names : List String),
    vs.mapM (LookupKey.ofValue s.mode) = .ok (names.map .name) →
    ∃ t, s.deleteNames settings vs = .ok t ∧ t.kind = s.kind ∧ t.mode = s.mode ∧
      t.entries = s.entries.filter (fun e => !names.contains (s.mode.fold e.name.value))

/-! ## Items and their keys -/

theorem lookup_name_eq (h : s.Suits e) :
    s.lookup (.name e.name) = .ok (s.set.find? (Entry.key e)) := by
  rw [h.key_eq]
  rfl

/-- What holds of the named sets holds of the sets of items. -/
theorem agreesBut_of_set {u : NamedSet Item} {k : String} (h : s.set.AgreesBut u k) :
    s.AgreesBut { s with set := u } k where
  kind := rfl
  mode := h.mode
  lookup v k' hv hk := by
    have hv' : LookupKey.ofValue (ItemSet.mode { s with set := u }) v = .ok (.name k') := by
      rw [← hv]
      exact congrArg (fun mode => LookupKey.ofValue mode v) h.mode
    rw [lookup_of_key hv, lookup_of_key hv']
    exact congrArg Except.ok (h.find? k' hk)

theorem ofChange_bind (x : Except Rejection (NamedSet Item))
    (f : NamedSet Item → Except Rejection (NamedSet Item)) :
    (s.ofChange x >>= fun t => t.ofChange (f t.set)) = s.ofChange (x >>= f) := by
  cases x <;> rfl

theorem foldlM_ofChange (f : NamedSet Item → Item → Except Rejection (NamedSet Item))
    (es : List Item) (s : ItemSet) :
    es.foldlM (fun t e => t.ofChange (f t.set e)) s = s.ofChange (es.foldlM f s.set) := by
  induction es generalizing s with
  | nil => rfl
  | cons e es ih =>
    rw [List.foldlM_cons, List.foldlM_cons, ← ofChange_bind]
    exact congrArg _ (funext ih)

theorem concatAll_items (settings : Settings) (s : ItemSet) (es : List Item) :
    s.concatAll settings (es.map .item) = s.ofChange (s.set.concatAll settings es) := by
  have hitems : (es.map Value.item).mapM Item.ofValue? = some es := by
    induction es with
    | nil => rfl
    | cons e es ih =>
      rw [List.map_cons, List.mapM_cons, ih]
      rfl
  rw [concatAll, hitems]

theorem namesOf_eq {vs : List Value} {names : List String}
    (h : vs.mapM (LookupKey.ofValue s.mode) = .ok (names.map .name)) :
    s.namesOf vs = .ok names := by
  have hkeys : vs.mapM (fun v => do (← LookupKey.ofValue s.mode v).name?) =
      (.ok (names.map some) : Except Failure (List (Option String))) := by
    induction vs generalizing names with
    | nil =>
      obtain rfl := List.map_eq_nil_iff.1 (Except.ok.inj h).symm
      rfl
    | cons v vs ih =>
      rw [List.mapM_cons] at h
      obtain ⟨k, hk, h⟩ := exists_of_bind_ok h
      obtain ⟨ks, hks, h⟩ := exists_of_bind_ok h
      cases names with
      | nil => cases h
      | cons name names =>
        obtain ⟨rfl, rfl⟩ := List.cons.inj (Except.ok.inj h)
        rw [List.mapM_cons, hk, ih hks]
        rfl
  show (vs.mapM (fun v => do (← LookupKey.ofValue s.mode v).name?) >>= fun keys =>
    pure (keys.filterMap id)) = _
  rw [hkeys]
  show Except.ok ((names.map some).filterMap id) = _
  rw [List.filterMap_map]
  exact congrArg Except.ok List.filterMap_some

theorem lookup_of_agreesBut {u : NamedSet Item} {k : String} (he : s.Suits e)
    (hu : s.set.AgreesBut u k) :
    ItemSet.lookup { s with set := u } (.name e.name) = .ok (u.find? (Entry.key e)) := by
  have hfold : u.mode.fold e.name.value = Entry.key e := by
    rw [he.key_eq, hu.mode]
    rfl
  rw [← hfold]
  rfl

section Changes

variable (settings : Settings) (hs : ∀ e ∈ s.entries, s.kind.Admits e)

include hs

theorem concat_of_different (he : s.Suits e) {d : Item}
    (hd : s.lookup (.name e.name) = .ok (some d)) (hdiffer : d.same e = false) :
    s.concat settings (.item e) = .error (.rejection (.duplicateNames [e.name])) := by
  rw [lookup_name_eq he] at hd
  have hconcat := NamedSet.concat_of_different settings he.isIn.name
    (same_self hs fun x hx => List.mem_singleton.1 hx ▸ he) (Except.ok.inj hd) hdiffer
  show s.ofChange (s.set.concat settings e) = _
  rw [hconcat]
  rfl

theorem exists_concat (he : s.Suits e)
    (hfree : ¬ ∃ d, s.lookup (.name e.name) = .ok (some d) ∧ d.same e = false) :
    ∃ t, s.concat settings (.item e) = .ok t ∧ s.AgreesBut t (s.mode.fold e.name.value) ∧
      ∃ d, t.lookup (.name e.name) = .ok (some d) ∧ d.same e = true := by
  have hself : ∀ x ∈ s.set.entries ++ [e], x.same x = true :=
    same_self hs fun x hx => List.mem_singleton.1 hx ▸ he
  have hequal : ∀ d, s.set.find? (Entry.key e) = some d → d.same e = true := by
    intro d hd
    rw [← Bool.not_eq_false]
    exact fun hdiffer => hfree ⟨d, by rw [lookup_name_eq he, hd], hdiffer⟩
  obtain ⟨u, hu, hsu, hfind⟩ := NamedSet.exists_concat settings he.isIn.name hself hequal
  refine ⟨{ s with set := u }, ?_, he.key_eq ▸ agreesBut_of_set hsu,
    _, (lookup_of_agreesBut he hsu).trans (congrArg Except.ok hfind), ?_⟩
  · show s.ofChange (s.set.concat settings e) = _
    rw [hu]
    rfl
  · cases hd : s.set.find? (Entry.key e) with
    | none => exact hself e (List.mem_append_right _ List.mem_cons_self)
    | some d => exact hequal d hd

theorem concatAll_of_clashing (hes : ∀ e ∈ es, s.Suits e)
    (h : NamedSet.clashing s.entries es ≠ []) :
    s.concatAll settings (es.map .item) = .error (.rejection (.duplicateNames
      (sortDistinctBy Name.key ((NamedSet.clashing s.entries es).map Item.name)))) := by
  rw [concatAll_items, NamedSet.concatAll_of_clashing settings (fun e he => (hes e he).isIn.name)
    (same_self hs hes) h]
  rfl

theorem exists_concatAll (hes : ∀ e ∈ es, s.Suits e)
    (h : NamedSet.clashing s.entries es = []) :
    ∃ t, s.concatAll settings (es.map .item) = .ok t ∧
      es.foldlM (fun u e => u.concat settings (.item e)) s = .ok t := by
  obtain ⟨t, ht, hst⟩ := NamedSet.exists_concatAll settings (fun e he => (hes e he).isIn.name)
    (same_self hs hes) h
  obtain ⟨u, hu, hsu⟩ := NamedSet.exists_foldlM_concat settings
    (fun e he => (hes e he).isIn.name) (same_self hs hes) h
  obtain rfl := hst.unique hsu
  refine ⟨{ s with set := t }, ?_, ?_⟩
  · rw [concatAll_items, ht]
    rfl
  · refine (foldlM_ofChange (fun t e => t.concat settings e) es s).trans ?_
    rw [hu]
    rfl

theorem exists_delete (he : s.Suits e) : ∃ t, s.delete settings (.item e) = .ok t ∧
    s.AgreesBut t (s.mode.fold e.name.value) ∧
    ∃ found, s.lookup (.name e.name) = .ok found ∧
      t.lookup (.name e.name) = .ok (found.filter (fun d => !d.same e)) := by
  obtain ⟨u, hu, hsu, hfind⟩ := NamedSet.exists_delete settings he.isIn.name
    fun x hx => same_entry hs hx
  refine ⟨{ s with set := u }, ?_, he.key_eq ▸ agreesBut_of_set hsu, _, lookup_name_eq he,
    (lookup_of_agreesBut he hsu).trans (congrArg Except.ok hfind)⟩
  show s.ofChange (s.set.delete settings e) = _
  rw [hu]
  rfl

theorem exists_deleteAll (es : List Item) :
    ∃ t, s.deleteAll settings (es.map .item) = .ok t ∧
      es.foldlM (fun u e => u.delete settings (.item e)) s = .ok t := by
  obtain ⟨u, hu, hfold⟩ := NamedSet.deleteAll_eq_foldlM (s := s.set) settings
    (fun x hx => same_entry hs hx) es
  have hitems : (es.map Value.item).filterMap Item.ofValue? = es := by
    rw [List.filterMap_map]
    exact List.filterMap_some
  refine ⟨{ s with set := u }, ?_, ?_⟩
  · rw [deleteAll, hitems, hu]
    rfl
  · refine (foldlM_ofChange (fun t e => t.delete settings e) es s).trans ?_
    rw [hfold]
    rfl

theorem replace_outcome {old new : Item} (hnew : s.Suits new)
    (hold : s.contains (.item old) = true) :
    SameOutcome (do (← s.delete settings (.item old)).concat settings (.item new))
      (s.replace settings (.item old) (.item new)) := by
  have htwo : (do (← s.delete settings (.item old)).concat settings (.item new)) =
      s.ofChange (do (← s.set.delete settings old).concat settings new) :=
    ofChange_bind (s.set.delete settings old) fun t => t.concat settings new
  have hone : s.replace settings (.item old) (.item new) =
      s.ofChange (s.set.replace settings old new) := if_pos hold
  rw [htwo, hone]
  rcases NamedSet.replace_outcome settings hnew.isIn.name
    (same_self hs fun x hx => List.mem_singleton.1 hx ▸ hnew) hold with
      ⟨r, htwo, hone⟩ | ⟨t, u, htwo, hone, hsame⟩
  · rw [htwo, hone]
    exact .inl ⟨_, rfl, rfl⟩
  · rw [htwo, hone]
    exact .inr ⟨_, _, rfl, rfl, rfl, hsame⟩

theorem exists_concatOrReplace (he : s.Suits e) :
    ∃ t, s.concatOrReplace settings (.item e) = .ok t ∧
      s.AgreesBut t (s.mode.fold e.name.value) ∧
      ∃ d, t.lookup (.name e.name) = .ok (some d) ∧ d.same e = true := by
  obtain ⟨u, hu, hsu, d, hfind, hsame⟩ := NamedSet.exists_concatOrReplace_at settings he.isIn.name
    (same_self hs fun x hx => List.mem_singleton.1 hx ▸ he)
  refine ⟨{ s with set := u }, ?_, he.key_eq ▸ agreesBut_of_set hsu, d,
    (lookup_of_agreesBut he hsu).trans (congrArg Except.ok hfind), ?_⟩
  · show s.ofChange (s.set.concatOrReplace settings e) = _
    rw [hu]
    rfl
  · exact (Item.same_comm he.kind.isKey d).symm.trans hsame

theorem exists_deleteNames {vs : List Value} {names : List String}
    (hnames : vs.mapM (LookupKey.ofValue s.mode) = .ok (names.map .name)) :
    ∃ t, s.deleteNames settings vs = .ok t ∧ t.kind = s.kind ∧ t.mode = s.mode ∧
      t.entries = s.entries.filter (fun e => !names.contains (s.mode.fold e.name.value)) := by
  obtain ⟨u, hu, hsu⟩ := NamedSet.exists_keepIf_becomes (s := s.set) settings
    (fun e => !names.contains (Entry.key e))
    fun x hx => same_entry hs hx
  refine ⟨{ s with set := u }, ?_, rfl, hsu.mode, ?_⟩
  · rw [deleteNames, namesOf_eq hnames]
    show s.ofChange (s.set.deleteNames settings names) = _
    rw [show s.set.deleteNames settings names = .ok u from hu]
    rfl
  · refine hsu.entries.trans (List.filter_congr fun e he => ?_)
    rw [key_of_mem he]

end Changes

/-- A set of infos or of aliases is a finite map from folded names to entries, to all items of its
kind whose names and targets are in its mode. An item is taken in where its name is new or has an
equal entry, and changes nothing else; taking several in is taking one after another, and is
refused for those that differ from the first entry of their name. These are there exactly where two
different entries share a name, for all items exactly if the set ignores case or all its targets are
in its mode. A deletion drops the entry of a name if it is equal, and no other. To replace an entry
that is there is to delete it and to take in the other one. A replacement by name always succeeds,
and a deletion of names leaves just the entries with other names. -/
theorem actsAsMap (settings : Settings) (s : ItemSet) (hs : ∀ e ∈ s.entries, s.kind.Admits e) :
    s.ActsAsMap settings where
  concat_refuses e he := by
    constructor
    · intro h
      refine Classical.byContradiction fun hfree => ?_
      obtain ⟨t, ht, -⟩ := exists_concat settings hs he hfree
      rw [ht] at h
      cases h
    · rintro ⟨d, hd, hdiffer⟩
      exact concat_of_different settings hs he hd hdiffer
  concat_takes e he := exists_concat settings hs he
  concatAll_refuses es hes := concatAll_of_clashing settings hs hes
  concatAll_takes es hes := exists_concatAll settings hs hes
  concatAll_refuses_iff := by
    have hrefused : ∀ es, (∀ e ∈ es, s.Suits e) →
        ((∃ names, s.concatAll settings (es.map .item) =
          .error (.rejection (.duplicateNames names))) ↔ NamedSet.clashing s.entries es ≠ []) := by
      intro es hes
      constructor
      · rintro ⟨names, hnames⟩ hnone
        obtain ⟨t, ht, -⟩ := exists_concatAll settings hs hes hnone
        rw [ht] at hnames
        cases hnames
      · exact fun h => ⟨_, concatAll_of_clashing settings hs hes h⟩
    constructor
    · intro h
      cases hmode : s.mode with
      | insensitive => exact .inl rfl
      | sensitive =>
        refine .inr fun e he => Classical.byContradiction fun hsuits => ?_
        obtain ⟨es, hes, hnone, hconflict⟩ := exists_hidden hs hmode he hsuits
        exact (hrefused es hes).1 ((h es hes).2 hconflict) hnone
    · exact fun h es hes => (hrefused es hes).trans (clashing_iff hs hes h)
  delete e he := exists_delete settings hs he
  deleteAll es := exists_deleteAll settings hs es
  replace_absent old new h := by
    show (if s.set.contains old then _ else Except.ok s) = _
    rw [if_neg (by rw [show s.set.contains old = false from h]; exact Bool.false_ne_true)]
  replace old new hnew hold := replace_outcome settings hs hnew hold
  concatOrReplace e he := exists_concatOrReplace settings hs he
  deleteNames vs names h := exists_deleteNames settings hs h

/-! ## A target in the other mode -/

def shortName (text : String) (mode : CaseMode) (h : isName text.toList = true) : Name where
  value := text
  mode := mode
  isName_value := h

/-- The alias `a` of another name. -/
def aliasOf (target : Name) (h : target.same (shortName "a" .sensitive (Eq.refl true)) = false) :
    Alias where
  name := shortName "a" .sensitive (Eq.refl true)
  target := some { name := target, valueText := "", isSeparated_valueText := Eq.refl true }
  token := none
  fits_target := by
    rw [Alias.fits, Alias.isOwnName, h]
    rfl

/-- The sensitive set of a single alias, of a name that ignores case. -/
def onlyAliasB : ItemSet where
  kind := .aliases
  set := {
    mode := .sensitive
    entries := [.alias (aliasOf (shortName "B" .insensitive (Eq.refl true)) (by decide))]
    mode_of_mem := fun e he => by
      rw [List.mem_singleton.1 he]
      rfl
    ascending := List.pairwise_singleton _ _ }

/-- The same alias of other, sensitive names. -/
def aliasTo (text : String) (h : isName text.toList = true) (ha : text ≠ "a") : Item :=
  .alias (aliasOf (shortName text .sensitive h) (beq_eq_false_iff_ne.2 ha))

theorem suits_aliasTo {text : String} {h : isName text.toList = true} {ha : text ≠ "a"} :
    onlyAliasB.Suits (aliasTo text h ha) where
  kind := ⟨_, rfl⟩
  isIn := ⟨rfl, fun t ht => by
    obtain rfl := Option.some.inj (Except.ok.inj ht)
    rfl⟩

theorem admits_onlyAliasB : ∀ e ∈ onlyAliasB.entries, onlyAliasB.kind.Admits e :=
  fun _ he => ⟨_, List.mem_singleton.1 he⟩

/-- An alias of `c` is refused beside the one that is there, and can take its place. -/
theorem actsAsMap_onlyAliasB :
    (∀ e ∈ onlyAliasB.entries, onlyAliasB.kind.Admits e) ∧
      onlyAliasB.concat {} (.item (aliasTo "c" (Eq.refl true) (by decide))) =
        .error (.rejection (.duplicateNames [shortName "a" .sensitive (Eq.refl true)])) ∧
      ∃ t, onlyAliasB.concatOrReplace {} (.item (aliasTo "c" (Eq.refl true) (by decide))) = .ok t ∧
        ∃ d, t.lookup (.name (shortName "a" .sensitive (Eq.refl true))) = .ok (some d) ∧
          d.same (aliasTo "c" (Eq.refl true) (by decide)) = true := by
  have hmap := actsAsMap {} onlyAliasB admits_onlyAliasB
  refine ⟨admits_onlyAliasB, (hmap.concat_refuses _ suits_aliasTo).2 ⟨_, rfl, ?_⟩, ?_⟩
  · decide +kernel
  · obtain ⟨t, ht, -, hd⟩ := hmap.concatOrReplace _ suits_aliasTo
    exact ⟨t, ht, hd⟩

def sensitiveVariants : List Item :=
  [aliasTo "b" (Eq.refl true) (by decide), aliasTo "B" (Eq.refl true) (by decide)]

/-- Two different aliases of one name are taken in together, as both are equal to the one that is
there. -/
theorem hidden_conflict :
    of {} .aliases .sensitive onlyAliasB.entries = .ok onlyAliasB ∧
      (∀ e ∈ sensitiveVariants, onlyAliasB.Suits e) ∧ onlyAliasB.Conflict sensitiveVariants ∧
      onlyAliasB.concatAll {} (sensitiveVariants.map .item) = .ok onlyAliasB := by
  have hsuits : ∀ e ∈ sensitiveVariants, onlyAliasB.Suits e := by
    intro e he
    simp only [sensitiveVariants, List.mem_cons, List.not_mem_nil, or_false] at he
    rcases he with rfl | rfl
    · exact suits_aliasTo
    · exact suits_aliasTo
  have hclash : NamedSet.clashing onlyAliasB.set.entries sensitiveVariants = [] :=
    List.isEmpty_iff.1 (by decide +kernel)
  have hkept : NamedSet.extended onlyAliasB.set.entries sensitiveVariants =
      onlyAliasB.set.entries := by
    rfl
  obtain ⟨t, ht, hst⟩ := NamedSet.exists_concatAll (s := onlyAliasB.set) {}
    (fun e he => (hsuits e he).isIn.name) (same_self admits_onlyAliasB hsuits) hclash
  rw [hst.unchanged hkept] at ht
  have hconflict : onlyAliasB.Conflict sensitiveVariants :=
    ⟨_, List.mem_append_right _ List.mem_cons_self, _,
      List.mem_append_right _ (List.mem_cons_of_mem _ List.mem_cons_self), rfl, by decide +kernel⟩
  refine ⟨rfl, hsuits, hconflict, ?_⟩
  rw [concatAll_items, ht]
  rfl

end FunctionCatalog.ItemSet
