import FunctionCatalog.Proofs.ItemSet.Comparison
import FunctionCatalog.Proofs.ItemSet.Invariant
import FunctionCatalog.Proofs.NamedSet.Clashing
import FunctionCatalog.Proofs.Value.Same

/-
  FunctionCatalog: different items of one name.
  An item that comes into a set is compared with the first entry of its name. Among items of one
  mode that shows whether any two of a name differ (`clashing_iff`), since sameness is transitive
  there. Across modes it is not: two variants of a target that ignores case are equal to an alias of
  that target and differ from each other (`exists_hidden`).
-/

namespace FunctionCatalog

/-! ## Sameness -/

variable {kind : SetKind} {mode : CaseMode} {i j : Item}

theorem SetKind.Admits.isKey (h : kind.Admits i) : i.isKey = true := by
  cases kind <;> obtain ⟨_, rfl⟩ := h <;> rfl

/-- Two names of a mode are the same if a third is the same as both, provided that this ignores
case only where they do. -/
theorem Name.same_of_same {f m n : Name} (hm : m.mode = mode) (hn : n.mode = mode)
    (hf : mode = .insensitive ∨ f.mode = mode) (hfm : f.same m = true) (hfn : f.same n = true) :
    m.same n = true := by
  have hjoin : f.mode.join mode = mode := by
    rcases hf with rfl | hf
    · cases f.mode <;> rfl
    · rw [hf, mode.join_self]
  rw [Name.same, hm, hjoin, beq_iff_eq] at hfm
  rw [Name.same, hn, hjoin, beq_iff_eq] at hfn
  rw [Name.same, hm, hn, mode.join_self, beq_iff_eq, ← hfm, hfn]

theorem Selector.same_of_same {f r t : Selector} (hr : r.name.mode = mode) (ht : t.name.mode = mode)
    (hf : mode = .insensitive ∨ f.name.mode = mode) (hfr : f.same r = true)
    (hft : f.same t = true) : r.same t = true := by
  rw [Selector.same, Bool.and_eq_true, beq_iff_eq] at hfr hft ⊢
  exact ⟨Name.same_of_same hr ht hf hfr.1 hft.1, hfr.2.symm.trans hft.2⟩

/-- An item whose names, that of a target included, are in a mode. -/
structure Item.IsIn (mode : CaseMode) (i : Item) : Prop where
  name : i.name.mode = mode
  target : ∀ t, i.target = .ok (some t) → t.name.mode = mode

theorem Item.same_of_same {f : Item} (hkind : kind.Admits f) (hi : kind.Admits i)
    (hj : kind.Admits j) (hf : mode = .insensitive ∨ f.IsIn mode) (hmi : i.IsIn mode)
    (hmj : j.IsIn mode) (hfi : f.same i = true) (hfj : f.same j = true) : i.same j = true := by
  have hname : i.name.same j.name = true := Name.same_of_same hmi.name hmj.name
    (hf.imp_right Item.IsIn.name) (Item.name_same hfi) (Item.name_same hfj)
  cases kind with
  | infos =>
    obtain ⟨f, rfl⟩ := hkind
    obtain ⟨i, rfl⟩ := hi
    obtain ⟨j, rfl⟩ := hj
    simp only [Item.same, Info.same, Bool.and_eq_true, beq_iff_eq] at hfi hfj ⊢
    exact ⟨hname, hfi.2.symm.trans hfj.2⟩
  | aliases =>
    obtain ⟨f, rfl⟩ := hkind
    obtain ⟨i, rfl⟩ := hi
    obtain ⟨j, rfl⟩ := hj
    simp only [Item.same, Alias.same, Bool.and_eq_true, beq_iff_eq] at hfi hfj ⊢
    refine ⟨⟨hname, ?_⟩, hfi.2.symm.trans hfj.2⟩
    replace hfi := hfi.1.2
    replace hfj := hfj.1.2
    cases hft : f.target with
    | none =>
      rw [hft] at hfi hfj
      cases hit : i.target <;> rw [hit] at hfi <;> cases hfi
      cases hjt : j.target <;> rw [hjt] at hfj <;> cases hfj
      rfl
    | some r =>
      rw [hft] at hfi hfj
      cases hit : i.target with
      | none => rw [hit] at hfi; cases hfi
      | some s =>
        cases hjt : j.target with
        | none => rw [hjt] at hfj; cases hfj
        | some t =>
          rw [hit] at hfi
          rw [hjt] at hfj
          exact Selector.same_of_same (hmi.target s (congrArg Except.ok hit))
            (hmj.target t (congrArg Except.ok hjt))
            (hf.imp_right fun h => h.target r (congrArg Except.ok hft)) hfi hfj

/-- A target that ignores case passes for its sensitive variants. -/
theorem Alias.exists_variant {a : Alias} {r : Selector} {n : Name} (hr : a.target = some r)
    (hmode : r.name.mode = .insensitive) (ha : a.name.mode = .sensitive) (hn : n.mode = .sensitive)
    (hvalue : CaseMode.insensitive.fold n.value = CaseMode.insensitive.fold r.name.value) :
    ∃ b : Alias, b.name = a.name ∧ b.target = some { r with name := n } ∧ a.same b = true := by
  have hjoin : ∀ m : Name, r.name.mode.join m.mode = .insensitive := fun m => by
    rw [hmode]
    cases m.mode <;> rfl
  have hfits : fits a.name (some { r with name := n }) a.token = true := by
    have hown : n.same a.name = true → r.name.same a.name = true := fun h => by
      rw [Name.same, hn, ha, CaseMode.join_self, beq_iff_eq] at h
      rw [Name.same, hjoin, beq_iff_eq, ← hvalue]
      exact congrArg CaseMode.insensitive.fold h
    have hfits := a.fits_target
    rw [hr] at hfits
    simp only [fits, isTarget, isOwnName, Selector.isBare] at hfits ⊢
    cases hsame : n.same a.name with
    | true => rwa [hown hsame] at hfits
    | false => simp_all
  refine ⟨{ name := a.name, target := _, token := a.token, fits_target := hfits }, rfl, rfl, ?_⟩
  have htarget : r.same { r with name := n } = true := by
    rw [Selector.same, Name.same, hjoin, hvalue, beq_self_eq_true, beq_self_eq_true, Bool.and_self]
  rw [same, hr, Name.same_refl, sameTarget, htarget, beq_self_eq_true]
  rfl

namespace ItemSet

variable {s : ItemSet} {d e : Item} {es : List Item}

/-! ## Conflicts -/

/-- An item of the kind of a set that is in the mode of the set. -/
structure Suits (s : ItemSet) (e : Item) : Prop where
  kind : s.kind.Admits e
  isIn : e.IsIn s.mode

/-- Two different entries, of the set or among others, share a name. -/
def Conflict (s : ItemSet) (es : List Item) : Prop :=
  ∃ d ∈ s.entries ++ es, ∃ e ∈ s.entries ++ es,
    s.mode.fold d.name.value = s.mode.fold e.name.value ∧ d.same e = false

theorem Suits.key_eq (h : s.Suits e) : Entry.key e = s.mode.fold e.name.value :=
  congrArg (fun mode => CaseMode.fold mode e.name.value) h.isIn.name

theorem same_entry (hs : ∀ e ∈ s.entries, s.kind.Admits e) (he : e ∈ s.entries) :
    e.same e = true :=
  Item.same_refl (hs e he).isKey

section Conflicts

variable (hs : ∀ e ∈ s.entries, s.kind.Admits e)

include hs

theorem admits_of_mem (hes : ∀ e ∈ es, s.Suits e) (he : e ∈ s.entries ++ es) :
    s.kind.Admits e :=
  (List.mem_append.1 he).elim (hs e) (fun he => (hes e he).kind)

theorem same_self (hes : ∀ e ∈ es, s.Suits e) : ∀ e ∈ s.set.entries ++ es, e.same e = true :=
  fun _ he => Item.same_refl (admits_of_mem hs hes he).isKey

/-- Where nothing clashes all entries of a name are equal. -/
theorem same_of_unclashing (hes : ∀ e ∈ es, s.Suits e)
    (huniform : s.mode = .insensitive ∨ ∀ e ∈ s.entries, s.Suits e)
    (hnone : NamedSet.clashing s.entries es = []) (hd : d ∈ s.entries ++ es)
    (he : e ∈ s.entries ++ es) (hkey : Entry.key d = Entry.key e) : d.same e = true := by
  have hself := same_self hs hes
  have hkind : ∀ x ∈ s.entries ++ es, s.kind.Admits x := fun x => admits_of_mem hs hes
  obtain ⟨f, hf, hfind, (hfd : f.same d = true)⟩ :=
    NamedSet.exists_first (hself d hd) s.set.ascending hnone hd
  obtain ⟨f', -, hfind', (hfe : f'.same e = true)⟩ :=
    NamedSet.exists_first (hself e he) s.set.ascending hnone he
  obtain rfl : f = f' := by
    rw [hkey, hfind'] at hfind
    exact (Option.some.inj hfind).symm
  -- an entry of the set is itself the first of its name
  have hown : ∀ x ∈ s.entries, Entry.key x = Entry.key d → x = f := fun x hx hxd => by
    have hfirst : (s.entries ++ es).find? (fun y => Entry.key y == Entry.key x) = some x :=
      NamedSet.find?_append_of_mem s.set.ascending hx
    rw [hxd] at hfirst
    exact Option.some.inj (hfirst.symm.trans hfind)
  rcases List.mem_append.1 hd with hd' | hd'
  · rw [hown d hd' rfl]
    exact hfe
  · rcases List.mem_append.1 he with he' | he'
    · rw [hown e he' hkey.symm, Item.same_comm (hkind d hd).isKey f]
      exact hfd
    · have hfirst : s.mode = .insensitive ∨ f.IsIn s.mode := huniform.imp_right fun h =>
        (List.mem_append.1 hf).elim (fun hf => (h f hf).isIn) (fun hf => (hes f hf).isIn)
      exact Item.same_of_same (hkind f hf) (hkind d hd) (hkind e he) hfirst (hes d hd').isIn
        (hes e he').isIn hfd hfe

theorem clashing_iff (hes : ∀ e ∈ es, s.Suits e)
    (huniform : s.mode = .insensitive ∨ ∀ e ∈ s.entries, s.Suits e) :
    NamedSet.clashing s.entries es ≠ [] ↔ s.Conflict es := by
  have hkey : ∀ e ∈ s.entries ++ es, Entry.key e = s.mode.fold e.name.value := fun e he =>
    (List.mem_append.1 he).elim key_of_mem (fun he => (hes e he).key_eq)
  constructor
  · intro h
    obtain ⟨e, he⟩ := List.exists_mem_of_ne_nil _ h
    obtain ⟨hmem, d, hd, hde, hdiffer⟩ := NamedSet.exists_of_mem_clashing he
    have he' := List.mem_append_right s.entries hmem
    exact ⟨d, hd, e, he', by rw [← hkey d hd, ← hkey e he', hde], hdiffer⟩
  · rintro ⟨d, hd, e, he, hfold, hdiffer⟩ hnone
    rw [← hkey d hd, ← hkey e he] at hfold
    rw [same_of_unclashing hs hes huniform hnone hd he hfold] at hdiffer
    cases hdiffer

/-- An entry that does not suit its own set is an alias with a target in the other mode. -/
theorem exists_target_of_not_suits (he : e ∈ s.entries) (hsuits : ¬ s.Suits e) :
    ∃ a r, e = .alias a ∧ a.target = some r ∧ r.name.mode ≠ s.mode ∧
      ∀ b : Alias, s.kind.Admits (.alias b) := by
  obtain ⟨r, hr, hmode⟩ : ∃ r, e.target = .ok (some r) ∧ r.name.mode ≠ s.mode := by
    refine Classical.byContradiction fun hnone => hsuits ⟨hs e he, s.set.mode_of_mem e he, ?_⟩
    exact fun r hr => Classical.byContradiction fun hmode => hnone ⟨r, hr, hmode⟩
  have hkind := hs e he
  cases h : s.kind with
  | infos =>
    rw [h] at hkind
    obtain ⟨j, rfl⟩ := hkind
    cases hr
  | aliases =>
    rw [h] at hkind
    obtain ⟨a, rfl⟩ := hkind
    exact ⟨a, r, rfl, Except.ok.inj hr, hmode, fun b => ⟨b, rfl⟩⟩

/-- Where an alias of a sensitive set has a target that ignores case, two variants of the target
that differ from each other both pass for it. -/
theorem exists_hidden (hmode : s.mode = .sensitive) (he : e ∈ s.entries) (hsuits : ¬ s.Suits e) :
    ∃ es, (∀ x ∈ es, s.Suits x) ∧ NamedSet.clashing s.entries es = [] ∧ s.Conflict es := by
  obtain ⟨a, r, rfl, hr, hother, hkind⟩ := exists_target_of_not_suits hs he hsuits
  have ha : a.name.mode = .sensitive := (s.set.mode_of_mem _ he).trans hmode
  have hrmode : r.name.mode = .insensitive := by
    rw [hmode] at hother
    cases h : r.name.mode with
    | sensitive => exact absurd h hother
    | insensitive => rfl
  obtain ⟨n, hn, hne, hfold⟩ := r.name.exists_variant .sensitive
  obtain ⟨b, hb, hbt, hab⟩ := Alias.exists_variant (n := r.name.inMode .sensitive) hr hrmode ha
    rfl rfl
  obtain ⟨c, hc, hct, hac⟩ := Alias.exists_variant hr hrmode ha hn hfold
  have hsuit : ∀ (x : Alias) (m : Name), m.mode = .sensitive → x.name = a.name →
      x.target = some { r with name := m } → s.Suits (.alias x) := by
    intro x m hm hx hxt
    refine ⟨hkind x, ?_, fun t ht => ?_⟩
    · rw [hmode, ← ha, ← hx]
      rfl
    · obtain rfl : { r with name := m } = t := Option.some.inj (hxt.symm.trans (Except.ok.inj ht))
      rw [hmode, ← hm]
  have hpass : ∀ x : Alias, x.name = a.name → a.same x = true →
      NamedSet.isClash (s.entries ++ [Item.alias b, .alias c]) (.alias x) = false := by
    intro x hx hax
    refine NamedSet.isClash_of_same s.set.ascending he (congrArg Name.key hx.symm) ?_
    show (Item.alias a).same (.alias x) = true
    rw [Item.same, hax]
  refine ⟨[.alias b, .alias c], fun x hx => ?_, List.filter_eq_nil_iff.2 fun x hx => ?_, ?_⟩
  · simp only [List.mem_cons, List.not_mem_nil, or_false] at hx
    rcases hx with rfl | rfl
    · exact hsuit b _ rfl hb hbt
    · exact hsuit c n hn hc hct
  · simp only [List.mem_cons, List.not_mem_nil, or_false] at hx
    rw [Bool.not_eq_true]
    rcases hx with rfl | rfl
    · exact hpass b hb hab
    · exact hpass c hc hac
  · refine ⟨.alias b, by simp, .alias c, by simp, ?_, ?_⟩
    · rw [show (Item.alias b).name = b.name from rfl, show (Item.alias c).name = c.name from rfl,
        hb, hc]
    · have hnames : (r.name.inMode .sensitive).same n = false := by
        rw [Name.same, hn, Name.inMode, CaseMode.join_self, beq_eq_false_iff_ne]
        exact fun h => hne h.symm
      rw [Item.same, Alias.same, hbt, hct, Alias.sameTarget, Selector.same, hnames]
      simp

end Conflicts

end ItemSet

end FunctionCatalog
