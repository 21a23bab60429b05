import FunctionCatalog.Proofs.NamedSet.Clashing

/-
  FunctionCatalog: named sets as finite maps.
  A set maps folded names to entries. What comes into it stands under its name, unless an equal
  entry is there, and what is dropped leaves the other names as they are. A change by several
  entries is the change by each of them in turn, down to the object that it answers (`Becomes`).
  Entries are equal to themselves throughout, as infos and aliases are.
-/

namespace FunctionCatalog.NamedSet
open Entry

variable {α : Type} [Entry α] {settings : Settings} {s t u : NamedSet α} {e : α}
  {es fs : List α} {k : String}

/-! ## A set and what it becomes -/

theorem eq_of_parts (hmode : s.mode = t.mode) (hentries : s.entries = t.entries)
    (hhandle : s.handle = t.handle) : s = t := by
  obtain ⟨_, _, _, _, _⟩ := s
  obtain ⟨_, _, _, _, _⟩ := t
  cases hmode
  cases hentries
  cases hhandle
  rfl

/-- A set becomes one with other entries: it stays the object that it is where these are just its
own, and is a new object otherwise. -/
structure Becomes (s : NamedSet α) (es : List α) (t : NamedSet α) : Prop where
  mode : t.mode = s.mode
  entries : t.entries = es
  unchanged : es = s.entries → t = s
  changed : es ≠ s.entries → t.handle = .loose

namespace Becomes

/-- The entries tell what a set becomes. -/
theorem unique (ht : s.Becomes es t) (hu : s.Becomes es u) : t = u := by
  by_cases h : es = s.entries
  · rw [ht.unchanged h, hu.unchanged h]
  · exact eq_of_parts (ht.mode.trans hu.mode.symm) (ht.entries.trans hu.entries.symm)
      ((ht.changed h).trans (hu.changed h).symm)

theorem refl (s : NamedSet α) : s.Becomes s.entries s :=
  ⟨rfl, rfl, fun _ => rfl, fun h => absurd rfl h⟩

/-- One change after another, where the second does not undo the first. -/
theorem trans (ht : s.Becomes es t) (hu : t.Becomes fs u)
    (h : s.entries.Sublist es ∧ es.Sublist fs ∨ es.Sublist s.entries ∧ fs.Sublist es) :
    s.Becomes fs u where
  mode := hu.mode.trans ht.mode
  entries := hu.entries
  unchanged hfs := by
    rw [hfs] at h
    have hlength : es.length = s.entries.length := h.elim
      (fun h => Nat.le_antisymm h.2.length_le h.1.length_le)
      (fun h => Nat.le_antisymm h.1.length_le h.2.length_le)
    have hes : es = s.entries :=
      h.elim (fun h => h.2.eq_of_length hlength) (fun h => h.1.eq_of_length hlength)
    have hts : t = s := ht.unchanged hes
    rw [hu.unchanged (by rw [hfs, hts]), hts]
  changed hfs := by
    by_cases hkept : fs = t.entries
    · rw [hu.unchanged hkept]
      refine ht.changed fun hes => hfs ?_
      rw [hkept, ht.entries, hes]
    · exact hu.changed hkept

end Becomes

/-- What has been taken in stands after what was there. -/
theorem find?_of_taken (ht : s.Becomes (extended s.entries es) t) (k : String) :
    t.find? k = (s.entries ++ es).find? (fun x => key x == k) := by
  rw [find?, ht.entries]
  exact find?_foldl_placeBy s.ascending k

/-- Dropping entries leaves the map as it is but for these. -/
theorem find?_of_kept {p : α → Bool} (ht : s.Becomes (s.entries.filter p) t) (k : String) :
    t.find? k = (s.find? k).filter p := by
  refine Option.ext fun e => ?_
  rw [find?_eq_some_iff, ht.entries, List.mem_filter, Option.filter_eq_some_iff, find?_eq_some_iff]
  exact and_right_comm

theorem mem_of_kept {p : α → Bool} (ht : s.Becomes (s.entries.filter p) t) (he : e ∈ t.entries) :
    e ∈ s.entries := by
  rw [ht.entries] at he
  exact (List.mem_filter.1 he).1

theorem self_of_kept {p : α → Bool} (ht : s.Becomes (s.entries.filter p) t)
    (hself : ∀ e ∈ s.entries ++ es, Entry.same e e = true) :
    ∀ e ∈ t.entries ++ es, Entry.same e e = true := fun e he =>
  hself e (List.mem_append.2 ((List.mem_append.1 he).imp_left (mem_of_kept ht)))

/-- The maps of two sets of a mode differ at one folded name only. -/
structure AgreesBut (s t : NamedSet α) (k : String) : Prop where
  mode : t.mode = s.mode
  find? : ∀ k', k' ≠ k → t.find? k' = s.find? k'

theorem agreesBut_of_kept {p : α → Bool} (ht : s.Becomes (s.entries.filter p) t)
    (hp : ∀ x ∈ s.entries, key x ≠ k → p x = true) : s.AgreesBut t k := by
  refine ⟨ht.mode, fun k' hk' => ?_⟩
  rw [find?_of_kept ht]
  cases hx : s.find? k' with
  | none => rfl
  | some x =>
    obtain ⟨hmem, hkey⟩ := find?_eq_some_iff.1 hx
    rw [Option.filter_some, if_pos (hp x hmem (hkey ▸ hk'))]

theorem allSame_refl (hself : ∀ e ∈ es, Entry.same e e = true) : allSame es es = true := by
  induction es with
  | nil => rfl
  | cons e es ih =>
    rw [allSame, hself e List.mem_cons_self,
      ih fun f hf => hself f (List.mem_cons_of_mem e hf), Bool.and_self]

theorem same_self (hself : ∀ e ∈ s.entries, Entry.same e e = true) : s.same s = true := by
  rw [same, beq_self_eq_true, allSame_refl hself, Bool.and_self]

/-- A set equal to `s` of which one is a part of the other has the entries of `s`, so it is what `s`
becomes. -/
theorem exists_update_becomes (hof : of settings s.mode es = .ok u) (hmode : u.mode = s.mode)
    (hloose : u.handle = .loose) (hself : ∀ e ∈ s.entries, Entry.same e e = true)
    (hpart : u.entries.Sublist s.entries ∨ s.entries.Sublist u.entries) :
    ∃ t, s.update settings es = .ok t ∧ s.Becomes u.entries t := by
  refine ⟨if u.same s then s else u, by rw [update_eq, hof]; rfl, ?_⟩
  by_cases hsame : u.same s = true
  · have hlength := length_of_allSame (Bool.and_eq_true_iff.1 hsame).2
    have hentries : u.entries = s.entries :=
      hpart.elim (fun h => h.eq_of_length hlength) (fun h => (h.eq_of_length hlength.symm).symm)
    rw [if_pos hsame, hentries]
    exact .refl s
  · rw [if_neg hsame]
    refine ⟨hmode, rfl, fun hentries => absurd ?_ hsame, fun _ => hloose⟩
    rw [same, hmode, hentries, allSame_refl hself, beq_self_eq_true, Bool.and_self]

section Changes

variable [SteadyEntry α]

/-! ## Dropping entries -/

theorem exists_keepIf_becomes (settings : Settings) (p : α → Bool)
    (hself : ∀ e ∈ s.entries, Entry.same e e = true) :
    ∃ t, s.keepIf settings p = .ok t ∧ s.Becomes (s.entries.filter p) t := by
  have hkept : (s.entries.filter p).Sublist s.entries := List.filter_sublist
  have hall : s.entries.filter p ++ [] = s.entries.filter p := List.append_nil _
  obtain ⟨u, humode, (hentries : u.entries = s.entries.filter p), hloose, hof⟩ :=
    exists_of_append settings (List.Pairwise.sublist hkept s.ascending)
      (fun e he => s.mode_of_mem e (hkept.subset (hall ▸ he)))
      (fun e he => hself e (hkept.subset (hall ▸ he)))
  rw [hall, if_pos (show clashing _ [] = [] from rfl)] at hof
  rw [← hentries]
  exact exists_update_becomes hof humode hloose hself (.inl (hentries ▸ hkept))

/-- An entry is dropped from under its name, and only if it is equal. -/
theorem exists_delete [LawfulEntry α] (settings : Settings) (hmode : (name e).mode = s.mode)
    (hself : ∀ x ∈ s.entries, Entry.same x x = true) :
    ∃ t, s.delete settings e = .ok t ∧ s.AgreesBut t (key e) ∧
      t.find? (key e) = (s.find? (key e)).filter (fun x => !Entry.same x e) := by
  obtain ⟨t, ht, hst⟩ := exists_keepIf_becomes settings (fun x => !Entry.same x e) hself
  refine ⟨t, ht, agreesBut_of_kept hst fun x hx hkey => ?_, find?_of_kept hst (key e)⟩
  rw [Bool.not_eq_true', ← Bool.not_eq_true]
  exact fun hsame => hkey (key_eq_of_same ((s.mode_of_mem x hx).trans hmode.symm)
    (LawfulEntry.name_same hsame))

/-- Entries can also be dropped one by one. -/
theorem exists_foldlM_delete (settings : Settings)
    (hself : ∀ e ∈ s.entries, Entry.same e e = true) :
    ∃ t, es.foldlM (fun u e => u.delete settings e) s = .ok t ∧
      s.Becomes (s.entries.filter (fun x => !es.any (Entry.same x))) t := by
  induction es generalizing s with
  | nil =>
    have hall : s.entries.filter (fun x => !([] : List α).any (Entry.same x)) = s.entries :=
      List.filter_eq_self.2 fun x _ => rfl
    rw [hall]
    exact ⟨s, rfl, .refl s⟩
  | cons e es ih =>
    obtain ⟨t, ht, hst⟩ := exists_keepIf_becomes settings (fun x => !Entry.same x e) hself
    obtain ⟨u, hu, htu⟩ := ih fun f hf => hself f (mem_of_kept hst hf)
    have hboth : t.entries.filter (fun x => !es.any (Entry.same x)) =
        s.entries.filter (fun x => !(e :: es).any (Entry.same x)) := by
      rw [hst.entries, List.filter_filter]
      refine List.filter_congr fun x _ => ?_
      rw [List.any_cons, Bool.not_or, Bool.and_comm]
    have hfewer : (t.entries.filter (fun x => !es.any (Entry.same x))).Sublist
        (s.entries.filter (fun x => !Entry.same x e)) := by
      rw [hst.entries]
      exact List.filter_sublist
    refine ⟨u, by rw [List.foldlM_cons, show s.delete settings e = .ok t from ht]; exact hu, ?_⟩
    rw [← hboth]
    exact hst.trans htu (.inr ⟨List.filter_sublist, hfewer⟩)

theorem deleteAll_eq_foldlM (settings : Settings)
    (hself : ∀ e ∈ s.entries, Entry.same e e = true) (es : List α) :
    ∃ t, s.deleteAll settings es = .ok t ∧
      es.foldlM (fun u e => u.delete settings e) s = .ok t := by
  obtain ⟨t, ht, hst⟩ := exists_keepIf_becomes settings (fun x => !es.any (Entry.same x)) hself
  obtain ⟨u, hu, hsu⟩ := exists_foldlM_delete settings hself
  exact ⟨t, ht, hst.unique hsu ▸ hu⟩

/-! ## Taking entries in -/

section Taking

variable (settings : Settings) (hmode : ∀ e ∈ es, (name e).mode = s.mode)
  (hself : ∀ e ∈ s.entries ++ es, Entry.same e e = true)

include hmode hself

theorem concatAll_of_clashing (h : clashing s.entries es ≠ []) :
    s.concatAll settings es = .error
      (.duplicateNames (sortDistinctBy Name.key ((clashing s.entries es).map name))) := by
  have hmodes : ∀ e ∈ s.entries ++ es, (name e).mode = s.mode := fun e he =>
    (List.mem_append.1 he).elim (s.mode_of_mem e) (hmode e)
  obtain ⟨u, -, -, -, hof⟩ := exists_of_append settings s.ascending hmodes hself
  rw [if_neg h] at hof
  rw [concatAll, update_eq, hof]
  rfl

theorem exists_concatAll (h : clashing s.entries es = []) :
    ∃ t, s.concatAll settings es = .ok t ∧ s.Becomes (extended s.entries es) t := by
  have hmodes : ∀ e ∈ s.entries ++ es, (name e).mode = s.mode := fun e he =>
    (List.mem_append.1 he).elim (s.mode_of_mem e) (hmode e)
  obtain ⟨u, humode, hentries, hloose, hof⟩ := exists_of_append settings s.ascending hmodes hself
  rw [if_pos h] at hof
  rw [← hentries]
  refine exists_update_becomes hof humode hloose
    (fun e he => hself e (List.mem_append_left es he)) (.inr ?_)
  rw [hentries]
  exact sublist_foldl_placeBy s.entries es

/-- Entries that do not clash can also be taken in one by one. -/
theorem exists_foldlM_concat (h : clashing s.entries es = []) :
    ∃ t, es.foldlM (fun u e => u.concat settings e) s = .ok t ∧
      s.Becomes (extended s.entries es) t := by
  induction es generalizing s with
  | nil => exact ⟨s, rfl, .refl s⟩
  | cons e es ih =>
    have he : e ∈ s.entries ++ e :: es := List.mem_append_right _ List.mem_cons_self
    rw [clashing_cons s.ascending (hself e he)] at h
    obtain ⟨hfirst, hrest⟩ := List.append_eq_nil_iff.1 h
    have hone : ∀ f ∈ s.entries ++ [e], f ∈ s.entries ++ e :: es := fun f hf => by
      rcases List.mem_append.1 hf with hf | hf
      · exact List.mem_append_left _ hf
      · exact List.mem_singleton.1 hf ▸ he
    obtain ⟨t, ht, hst⟩ := exists_concatAll settings
      (fun f hf => List.mem_singleton.1 hf ▸ hmode e List.mem_cons_self)
      (fun f hf => hself f (hone f hf)) hfirst
    replace hst : s.Becomes (placeBy key e s.entries) t := hst
    have hmode' : ∀ f ∈ es, (name f).mode = t.mode := fun f hf =>
      (hmode f (List.mem_cons_of_mem e hf)).trans hst.mode.symm
    have hself' : ∀ f ∈ t.entries ++ es, Entry.same f f = true := fun f hf => by
      rw [hst.entries] at hf
      refine hself f ?_
      rcases List.mem_append.1 hf with hf | hf
      · rcases mem_placeBy hf with rfl | hf
        · exact he
        · exact List.mem_append_left _ hf
      · exact List.mem_append_right _ (List.mem_cons_of_mem e hf)
    rw [← hst.entries] at hrest
    obtain ⟨u, hu, htu⟩ := ih hmode' hself' hrest
    rw [hst.entries] at htu
    refine ⟨u, by rw [List.foldlM_cons, show s.concat settings e = .ok t from ht]; exact hu, ?_⟩
    exact hst.trans htu (.inl ⟨sublist_placeBy e s.entries, sublist_foldl_placeBy _ es⟩)

end Taking

section TakingOne

variable (settings : Settings) (hmode : (name e).mode = s.mode)
  (hself : ∀ x ∈ s.entries ++ [e], Entry.same x x = true)

include hmode hself

/-- Another entry of the name is in the way. -/
theorem concat_of_different {x : α} (hx : s.find? (key e) = some x)
    (h : Entry.same x e = false) : s.concat settings e = .error (.duplicateNames [name e]) := by
  have hclash : clashing s.entries [e] = [e] := by
    rw [clashing_singleton (hself e (by simp)),
      show s.entries.find? (fun x => key x == key e) = some x from hx, Option.any_some, h]
    rfl
  have hall := concatAll_of_clashing settings
    (fun f hf => List.mem_singleton.1 hf ▸ hmode) hself (by simp [hclash])
  rw [hclash] at hall
  exact hall

/-- An entry comes in under its name, unless an equal one is there. -/
theorem exists_concat (h : ∀ x, s.find? (key e) = some x → Entry.same x e = true) :
    ∃ t, s.concat settings e = .ok t ∧ s.AgreesBut t (key e) ∧
      t.find? (key e) = some ((s.find? (key e)).getD e) := by
  have hclash : clashing s.entries [e] = [] := by
    rw [clashing_singleton (hself e (by simp))]
    cases hfind : s.entries.find? (fun x => key x == key e) with
    | none => rfl
    | some x => simp [h x hfind]
  obtain ⟨t, ht, hst⟩ := exists_concatAll settings
    (fun f hf => List.mem_singleton.1 hf ▸ hmode) hself hclash
  refine ⟨t, ht, ⟨hst.mode, fun k hk => ?_⟩, ?_⟩
  · rw [find?_of_taken hst, List.find?_append]
    simp [hk.symm, find?]
  · rw [find?_of_taken hst, List.find?_append, find?]
    cases s.entries.find? (fun x => key x == key e) <;> simp

end TakingOne

/-! ## Replacing entries -/

/-- A change of `s` to the entries of `t` and further ones is the change of `t` by the further ones,
up to which of two equal sets is answered. -/
theorem update_append_outcome (settings : Settings) (ht : t.mode = s.mode)
    (hmode : ∀ e ∈ es, (name e).mode = t.mode)
    (hself : ∀ e ∈ t.entries ++ es, Entry.same e e = true) :
    (∃ r, t.concatAll settings es = .error r ∧
      s.update settings (t.entries ++ es) = .error r) ∨
    ∃ u v, t.concatAll settings es = .ok u ∧ s.update settings (t.entries ++ es) = .ok v ∧
      u.same v = true ∧ (v = s ∨ v.mode = u.mode ∧ v.entries = u.entries) := by
  have hmodes : ∀ e ∈ t.entries ++ es, (name e).mode = t.mode := fun e he =>
    (List.mem_append.1 he).elim (t.mode_of_mem e) (hmode e)
  obtain ⟨w, hwmode, hwentries, -, hof⟩ :=
    exists_of_append settings t.ascending hmodes hself
  have hupdate : s.update settings (t.entries ++ es) =
      (of settings t.mode (t.entries ++ es)).map (fun w => if w.same s then s else w) := by
    rw [update_eq, ht]
  by_cases hclash : clashing t.entries es = []
  · obtain ⟨u, hu, htu⟩ := exists_concatAll settings hmode hself hclash
    rw [hof, if_pos hclash] at hupdate
    have hsame : ∀ v, u.same v = w.same v := fun v => by
      rw [same, same, htu.mode, htu.entries, hwmode, hwentries]
    refine .inr ⟨u, if w.same s then s else w, hu, hupdate, ?_⟩
    rw [hsame]
    by_cases hback : w.same s = true
    · rw [if_pos hback]
      exact ⟨hback, .inl rfl⟩
    · have hall : ∀ e ∈ w.entries, Entry.same e e = true := fun e he => by
        rw [hwentries] at he
        exact hself e (List.mem_append.2 (mem_foldl_placeBy he))
      rw [if_neg hback]
      exact ⟨same_self hall, .inr ⟨hwmode.trans htu.mode.symm, hwentries.trans htu.entries.symm⟩⟩
  · rw [hof, if_neg hclash] at hupdate
    exact .inl ⟨_, concatAll_of_clashing settings hmode hself hclash, hupdate⟩

section Replacing

variable (settings : Settings) (hmode : (name e).mode = s.mode)
  (hself : ∀ x ∈ s.entries ++ [e], Entry.same x x = true)

include hmode hself

/-- To replace an entry that is there is to delete it and to take the other one in. -/
theorem replace_outcome {old : α} (hold : s.contains old = true) :
    (∃ r, (do (← s.delete settings old).concat settings e) = .error r ∧
      s.replace settings old e = .error r) ∨
    ∃ t u, (do (← s.delete settings old).concat settings e) = .ok t ∧
      s.replace settings old e = .ok u ∧ t.same u = true := by
  obtain ⟨t, ht, hst⟩ := exists_keepIf_becomes settings (fun x => !Entry.same x old)
    fun x hx => hself x (List.mem_append_left _ hx)
  have hdelete : (do (← s.delete settings old).concat settings e) = t.concat settings e := by
    rw [show s.delete settings old = .ok t from ht]
    rfl
  rw [hdelete, replace, if_pos hold, ← hst.entries]
  rcases update_append_outcome settings hst.mode
    (fun x hx => List.mem_singleton.1 hx ▸ hmode.trans hst.mode.symm)
    (self_of_kept hst hself) with h | ⟨u, v, hu, hv, hsame, -⟩
  · exact .inl h
  · exact .inr ⟨u, v, hu, hv, hsame⟩

/-- An entry always comes in in the place of those of its name. An equal one may have been there
already. -/
theorem exists_concatOrReplace_at [LawfulEntry α] :
    ∃ t, s.concatOrReplace settings e = .ok t ∧ s.AgreesBut t (key e) ∧
      ∃ x, t.find? (key e) = some x ∧ Entry.same e x = true := by
  have hconverted : Entry.withMode settings s.mode e = .ok e := SteadyEntry.withMode_of_mode hmode
  have hfold : s.fold (name e).value = key e := by rw [key, Name.key, hmode, fold]
  have hothers : ∀ x ∈ s.entries, (!(name x).same (name e)) = true ↔ key x ≠ key e := by
    intro x hx
    rw [Bool.not_eq_true', ← Bool.not_eq_true, name_same_iff_of_withMode hconverted hx, hfold]
  obtain ⟨t, -, hst⟩ := exists_keepIf_becomes settings (fun x => !(name x).same (name e))
    fun x hx => hself x (List.mem_append_left _ hx)
  have hfree : t.find? (key e) = none := by
    rw [find?_of_kept hst, Option.filter_eq_none_iff]
    intro x hx
    obtain ⟨hmem, hkey⟩ := find?_eq_some_iff.1 hx
    exact fun h => (hothers x hmem).1 h hkey
  have hrest : s.AgreesBut t (key e) := agreesBut_of_kept hst fun x hx => (hothers x hx).2
  have hmode' : (name e).mode = t.mode := hmode.trans hst.mode.symm
  have hself' := self_of_kept hst hself
  obtain ⟨u, hu, htu, hown⟩ := exists_concat settings hmode' hself' fun x hx => by
    rw [hfree] at hx
    cases hx
  rw [hfree, Option.getD_none] at hown
  rcases update_append_outcome settings hst.mode (fun x hx => List.mem_singleton.1 hx ▸ hmode')
    hself' with ⟨r, hr, -⟩ | ⟨u', v, hu', hv, hsame, hsv⟩
  · cases hr.symm.trans hu
  · obtain rfl : u' = u := Except.ok.inj (hu'.symm.trans hu)
    rw [hst.entries] at hv
    refine ⟨v, hv, ?_⟩
    rcases hsv with rfl | ⟨hvmode, hventries⟩
    · -- the set stays, so it has an entry that is equal to `e`
      obtain ⟨x, hx, hex⟩ := exists_same_of_allSame (Bool.and_eq_true_iff.1 hsame).2
        (find?_eq_some_iff.1 hown).1
      have hkey : key e = key x := key_eq_of_same_mem hmode hx hex
      exact ⟨⟨rfl, fun _ _ => rfl⟩, x, find?_eq_some_iff.2 ⟨hx, hkey.symm⟩, hex⟩
    · have hfind : ∀ k, v.find? k = u'.find? k := fun k => by rw [find?, find?, hventries]
      refine ⟨⟨hvmode.trans (htu.mode.trans hrest.mode), fun k hk => ?_⟩, e, ?_, hself e (by simp)⟩
      · rw [hfind, htu.find? k hk, hrest.find? k hk]
      · rw [hfind, hown]

end Replacing

end Changes

end FunctionCatalog.NamedSet
