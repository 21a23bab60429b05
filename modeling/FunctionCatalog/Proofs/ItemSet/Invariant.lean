import FunctionCatalog.Proofs.ItemSet.Change
import FunctionCatalog.Proofs.ItemSet.Names

/-
  FunctionCatalog: what holds of every set that can be built.
  `Built` says how a set of infos or of aliases comes about: from its entries, from a text or empty,
  by any number of changes, which may be made under different settings, and by being numbered. Every
  such set is in order, has the names of its entries and holds entries of its kind alone, and no
  change makes another object of a set that stays equal (`built_invariant`).
-/

namespace FunctionCatalog

/-- What a set of a kind is for. -/
def SetKind.Admits : SetKind → Item → Prop
  | .infos, i => ∃ j, i = .info j
  | .aliases, i => ∃ a, i = .alias a

namespace ItemSet

/-- The sets that can be built of infos and of aliases. -/
inductive Built : ItemSet → Prop
  | empty (kind : SetKind) (mode : CaseMode) : Built (empty kind mode)
  | of {settings : Settings} {kind : SetKind} {mode : CaseMode} {items : List Item} {s : ItemSet}
      (hitems : ∀ i ∈ items, kind.Admits i) (h : of settings kind mode items = .ok s) : Built s
  | infos {settings : Settings} {mode : CaseMode} {text : String} {s : InfoSet}
      (h : InfoSet.parse settings mode text = .ok s) : Built s.asItems
  | aliases {settings : Settings} {mode : CaseMode} {text : String} {s : AliasSet}
      (h : AliasSet.parse settings mode text = .ok s) : Built s.asItems
  | change {settings : Settings} {c : SetChange} {args : List Value} {s t : ItemSet}
      (hs : Built s) (hargs : ∀ i ∈ argumentItems args, s.kind.Admits i)
      (h : s.change settings c args = .ok t) : Built t
  | deleteIf {settings : Settings} {p : Item → Bool} {s t : ItemSet} (hs : Built s)
      (h : s.ofChange (s.set.deleteIf settings p) = .ok t) : Built t
  | settle {s : ItemSet} (hs : Built s) (next : Nat) : Built (s.settle.run next).1

/-- What holds of a set that has been built. -/
structure Sound (s : ItemSet) : Prop where
  ascending : s.entries.Pairwise
    (fun a b => s.mode.fold a.name.value < s.mode.fold b.name.value)
  mode : ∀ e ∈ s.entries, e.name.mode = s.mode
  /-- Under a name there is the entry with that name, if there is one. -/
  lookup : ∀ v folded, LookupKey.ofValue s.mode v = .ok (.name folded) →
    ∃ found, s.lookup v = .ok found ∧
      ∀ e, found = some e ↔ e ∈ s.entries ∧ s.mode.fold e.name.value = folded
  containsName : ∀ v folded, LookupKey.ofValue s.mode v = .ok (.name folded) →
    ∃ isThere, s.containsName v = .ok isThere ∧
      (isThere = true ↔ ∃ e ∈ s.entries, s.mode.fold e.name.value = folded)
  kind : ∀ e ∈ s.entries, s.kind.Admits e
  /-- No alias only names itself again. -/
  target : ∀ a, .alias a ∈ s.entries → ∀ t, a.target = some t →
    ¬ (t.name.same a.name = true ∧ t.isBare = true ∧ a.token = none)
  /-- There is one empty set of each kind and mode. -/
  empty : s.entries = [] → s.value.identical (ItemSet.empty s.kind s.mode).value = true

/-- Two sets are one object: they are one set, or both the empty set of their kind and mode. -/
def IsOne (s t : ItemSet) : Prop :=
  t = s ∨ s.entries = [] ∧ t = empty s.kind s.mode

variable {settings : Settings} {mode : CaseMode} {kind : SetKind} {s t : ItemSet}
  {entries : List Item} {i j : Item}

/-! ## The kind of the entries -/

theorem admits_of_withMode (hi : kind.Admits i) (h : i.withMode settings mode = .ok j) :
    kind.Admits j := by
  obtain ⟨n, -, hname⟩ := exists_of_bind_ok h
  cases kind with
  | infos =>
    obtain ⟨k, rfl⟩ := hi
    cases hname
    exact ⟨_, rfl⟩
  | aliases =>
    obtain ⟨a, rfl⟩ := hi
    obtain ⟨b, -, rfl⟩ := exists_of_map_ok hname
    exact ⟨b, rfl⟩

theorem admits_of_of {u : NamedSet Item} (hentries : ∀ e ∈ entries, kind.Admits e)
    (h : NamedSet.of settings mode entries = .ok u) : ∀ e ∈ u.entries, kind.Admits e := by
  obtain ⟨-, es, hes, hsorted⟩ := NamedSet.exists_converted_of h
  intro e he
  rw [hsorted] at he
  obtain ⟨i, hi, hconverted⟩ := exists_of_mem_mapM hes e (mem_of_mem_sortDistinctBy he)
  exact admits_of_withMode (hentries i hi) hconverted

theorem admits_settle (hi : kind.Admits i) (next : Nat) :
    kind.Admits (i.settle.run next).1 := by
  cases kind with
  | infos =>
    obtain ⟨j, rfl⟩ := hi
    exact ⟨_, rfl⟩
  | aliases =>
    obtain ⟨a, rfl⟩ := hi
    exact ⟨_, rfl⟩

theorem admits_settleAll (h : ∀ e ∈ entries, kind.Admits e) (next : Nat) :
    ∀ e ∈ ((Item.settleAll entries).run next).1, kind.Admits e := by
  induction entries generalizing next with
  | nil => exact fun e he => absurd he List.not_mem_nil
  | cons i entries ih =>
    intro e he
    have hsplit : ((Item.settleAll (i :: entries)).run next).1 = (i.settle.run next).1 ::
        ((Item.settleAll entries).run (i.settle.run next).2).1 := rfl
    rw [hsplit] at he
    rcases List.mem_cons.1 he with rfl | he
    · exact admits_settle (h i List.mem_cons_self) next
    · exact ih (fun f hf => h f (List.mem_cons_of_mem i hf)) _ e he

/-- What has been changed holds what was there and what it was given. -/
theorem admits_of_isChange {taken : List Item} (hs : ∀ e ∈ s.entries, s.kind.Admits e)
    (htaken : ∀ i ∈ taken, s.kind.Admits i) (h : IsChange settings s taken t) :
    ∀ e ∈ t.entries, t.kind.Admits e := by
  rcases h with rfl | rfl | ⟨entries, hentries, u, hu, ⟨-, rfl⟩ | ⟨-, rfl⟩⟩
  · exact hs
  · exact fun e he => absurd he List.not_mem_nil
  · exact hs
  · exact admits_of_of (fun e he => (hentries e he).elim (hs e) (htaken e)) hu

theorem Built.admits (h : Built s) : ∀ e ∈ s.entries, s.kind.Admits e := by
  induction h with
  | empty => exact fun e he => absurd he List.not_mem_nil
  | of hitems h =>
    obtain ⟨u, hu, rfl⟩ := exists_of_map_ok h
    exact admits_of_of hitems (ok_of_mapError_ok hu)
  | infos =>
    intro e he
    obtain ⟨j, -, rfl⟩ := List.mem_map.1 he
    exact ⟨j, rfl⟩
  | aliases =>
    intro e he
    obtain ⟨a, -, rfl⟩ := List.mem_map.1 he
    exact ⟨a, rfl⟩
  | change hs hargs h ih => exact admits_of_isChange ih hargs (change_cases h)
  | @deleteIf settings p s t hs h ih =>
    have hchange : IsChange settings s [] t := isChange_of_keepIf h
    exact admits_of_isChange ih (fun i hi => absurd hi List.not_mem_nil) hchange
  | @settle s hs next ih =>
    rcases settle_cases s next with heq | ⟨hkind, -, hentries⟩
    · rw [heq]
      exact ih
    · rw [hkind, hentries]
      exact admits_settleAll ih next

/-! ## Names and identity -/

theorem key_of_mem (hi : i ∈ s.entries) : Entry.key i = s.mode.fold i.name.value :=
  congrArg (fun m => CaseMode.fold m i.name.value) (s.set.mode_of_mem i hi)

theorem lookup_of_key {v : Value} {folded : String}
    (h : LookupKey.ofValue s.mode v = .ok (.name folded)) :
    s.lookup v = .ok (s.set.find? folded) := by
  rw [lookup, h]
  rfl

theorem Built.sound (h : Built s) : s.Sound where
  ascending := s.set.ascending.imp_of_mem fun {a b} ha hb hlt => by
    rwa [key_of_mem ha, key_of_mem hb] at hlt
  mode := s.set.mode_of_mem
  lookup v folded hv := by
    refine ⟨_, lookup_of_key hv, fun e => NamedSet.find?_eq_some_iff.trans ?_⟩
    exact and_congr_right fun he => by rw [key_of_mem he]
  containsName v folded hv := by
    refine ⟨_, congrArg (Except.map Option.isSome) (lookup_of_key hv), ?_⟩
    rw [Option.isSome_iff_exists]
    constructor
    · rintro ⟨e, hfind⟩
      obtain ⟨he, hkey⟩ := NamedSet.find?_eq_some_iff.1 hfind
      exact ⟨e, he, by rw [← key_of_mem he, hkey]⟩
    · rintro ⟨e, he, hkey⟩
      exact ⟨e, NamedSet.find?_eq_some_iff.2 ⟨he, by rw [key_of_mem he, hkey]⟩⟩
  kind := h.admits
  target a ha t ht hown := by
    obtain ⟨hname, hbare, htoken⟩ := hown
    have hfits := a.fits_target
    simp [Alias.fits, ht, Alias.isOwnName, hname, hbare, htoken] at hfits
  empty hentries := by
    show Value.identical (.set s.kind s.set.mode s.set.entries _) (.set s.kind s.mode [] _) = true
    rw [show s.set.entries = [] from hentries]
    simp [Value.identical, mode]

/-! ## Results that are equal to the receiver or empty -/

theorem eq_empty_of_of {u : NamedSet Item} (h : NamedSet.of settings mode entries = .ok u)
    (hu : u.entries = []) : u = NamedSet.empty mode := by
  cases entries with
  | nil => exact (Except.ok.inj h).symm
  | cons e entries =>
    have hcontains := NamedSet.containsName_of h List.mem_cons_self
    rw [NamedSet.containsName_iff, hu] at hcontains
    exact absurd hcontains List.not_mem_nil

/-- What a change does with a set as an object: it keeps the kind and the mode, an equal result is
the receiver itself, and an empty one is the empty set of the kind and mode. -/
structure KeepsIdentity (s t : ItemSet) : Prop where
  kind : t.kind = s.kind
  mode : t.mode = s.mode
  same : t.set.same s.set = true → s.IsOne t
  empty : t.entries = [] → s.IsOne t ∨ t = ItemSet.empty s.kind s.mode

theorem keepsIdentity_of_isChange {taken : List Item} (h : IsChange settings s taken t) :
    s.KeepsIdentity t := by
  rcases h with rfl | rfl | ⟨entries, -, u, hu, ⟨-, rfl⟩ | ⟨hdiffer, rfl⟩⟩
  · exact ⟨rfl, rfl, fun _ => .inl rfl, fun _ => .inl (.inl rfl)⟩
  · refine ⟨rfl, rfl, fun hsame => .inr ⟨?_, rfl⟩, fun _ => .inr rfl⟩
    rw [NamedSet.same, Bool.and_eq_true] at hsame
    exact List.eq_nil_of_length_eq_zero (NamedSet.length_of_allSame hsame.2).symm
  · exact ⟨rfl, rfl, fun _ => .inl rfl, fun _ => .inl (.inl rfl)⟩
  · refine ⟨rfl, (NamedSet.exists_converted_of hu).1, fun hsame => ?_, fun hempty => .inr ?_⟩
    · rw [hdiffer] at hsame
      cases hsame
    · rw [eq_empty_of_of hu hempty]
      rfl

/-- Every set that is built of infos or of aliases is in order under its own mode, finds just its
entries by their folded names, and holds nothing but entries of its kind in its mode, no alias that
only names itself among them. A change whose result is equal to the receiver answers the receiver,
and where nothing is left or nothing was given there is the one empty set. -/
theorem built_invariant :
    (∀ s, Built s → s.Sound) ∧
    (∀ (settings : Settings) (c : SetChange) (args : List Value) (s t : ItemSet),
      s.change settings c args = .ok t → s.KeepsIdentity t) ∧
    (∀ (settings : Settings) (p : Item → Bool) (s t : ItemSet),
      s.ofChange (s.set.deleteIf settings p) = .ok t → s.KeepsIdentity t) ∧
    (∀ (settings : Settings) (kind : SetKind) (mode : CaseMode) (items : List Item) (s : ItemSet),
      of settings kind mode items = .ok s → s.entries = [] → s = empty kind mode) := by
  refine ⟨fun s h => h.sound, fun settings c args s t h => ?_, fun settings p s t h => ?_,
    fun settings kind mode items s h hempty => ?_⟩
  · exact keepsIdentity_of_isChange (change_cases h)
  · have hchange : IsChange settings s [] t := isChange_of_keepIf h
    exact keepsIdentity_of_isChange hchange
  · obtain ⟨u, hu, rfl⟩ := exists_of_map_ok h
    rw [eq_empty_of_of (ok_of_mapError_ok hu) hempty]
    rfl

def capitalB : Info where
  name := { value := "B", mode := .sensitive, isName_value := Eq.refl true }
  token := "u/B"
  isToken_token := Eq.refl true

def smallA : Info where
  name := { value := "a", mode := .sensitive, isName_value := Eq.refl true }
  token := "u/a"
  isToken_token := Eq.refl true

/-- Sensitive infos in a set that ignores case, and the part of it below a name. -/
theorem built_invariant_below_b :
    ∃ s t : ItemSet, of {} .infos .insensitive [.info capitalB, .info smallA] = .ok s ∧
      s.change {} .headSet [.text "B"] = .ok t ∧ t.entries.map (·.name.value) = ["a"] ∧
      t.Sound ∧ s.KeepsIdentity t := by
  have hrun : (of {} .infos .insensitive [.info capitalB, .info smallA] >>= fun s =>
      (s.change {} .headSet [.text "B"]).map fun t => t.entries.map (·.name.value)).toOption =
        some ["a"] := by
    decide +kernel
  cases hs : of {} .infos .insensitive [.info capitalB, .info smallA] with
  | error e =>
    rw [hs] at hrun
    cases hrun
  | ok s =>
    rw [hs] at hrun
    cases ht : s.change {} .headSet [.text "B"] with
    | error e =>
      simp only [bind, Except.bind, ht] at hrun
      cases hrun
    | ok t =>
      simp only [bind, Except.bind, ht] at hrun
      have hitems : ∀ i ∈ [Item.info capitalB, Item.info smallA], SetKind.infos.Admits i := by
        intro i hi
        rcases List.mem_cons.1 hi with rfl | hi
        · exact ⟨_, rfl⟩
        · exact ⟨_, List.mem_singleton.1 hi⟩
      obtain ⟨hsound, hchange, -⟩ := built_invariant
      have hbuilt : Built t := .change (.of hitems hs) (fun i hi => absurd hi List.not_mem_nil) ht
      exact ⟨s, t, rfl, ht, Option.some.inj hrun, hsound t hbuilt, hchange _ _ _ s t ht⟩

end ItemSet

end FunctionCatalog
