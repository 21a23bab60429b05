import FunctionCatalog.Proofs.NamedSet.Equality

/-
  FunctionCatalog: replacing entries of a set.
  A replacement drops the entries that are equal to the old one and takes the new one in. It leaves
  the set as it is (`Leaves`), it is refused since an entry of the new name stays that differs from
  the new one (`Refuses`), or it is a set of what stays with the new one (`Replaced`). So two
  replacements by one entry come to the same exactly if both leave the set, both are refused, or
  what they drop is the same up to the new one itself (`replace_eq_replace_iff`).
-/

namespace FunctionCatalog.NamedSet
open Entry

variable {α : Type} [Entry α] {settings : Settings} {s u v : NamedSet α} {e f old old' y : α}

/-- What is in a set is equal to an entry. -/
theorem exists_same_of_contains (h : s.contains old = true) :
    ∃ x ∈ s.entries, Entry.same x old = true := by
  unfold contains get? at h
  split at h
  · cases h
  · next x hx => exact ⟨x, List.mem_of_find?_eq_some hx, h⟩

/-- An entry is placed among some entries of a set unless its name is taken there. -/
theorem mem_placeBy_filter {p : α → Bool} : f ∈ placeBy key e (s.entries.filter p) ↔
    f ∈ s.entries ∧ p f = true ∨ f = e ∧ ∀ x ∈ s.entries, key x = key e → p x = false := by
  by_cases htaken : ∃ x ∈ s.entries.filter p, key x = key e
  · obtain ⟨x, hx, hkey⟩ := htaken
    obtain ⟨hmem, hp⟩ := List.mem_filter.1 hx
    rw [placeBy_of_mem (s.ascending.sublist List.filter_sublist) hx hkey, List.mem_filter]
    refine (or_iff_left ?_).symm
    rintro ⟨-, hfree⟩
    rw [hfree x hmem hkey] at hp
    cases hp
  · have hfree : ∀ x ∈ s.entries, key x = key e → p x = false := by
      intro x hx hkey
      rw [← Bool.not_eq_true]
      exact fun hp => htaken ⟨x, List.mem_filter.2 ⟨hx, hp⟩, hkey⟩
    rw [(placeBy_perm fun x hx hkey => htaken ⟨x, hx, hkey⟩).mem_iff, List.mem_cons,
      List.mem_filter, and_iff_left hfree, or_comm]

/-! ## What a replacement comes to -/

/-- The old one is equal to a single entry, and the new one is equal to that. -/
def Restores (s : NamedSet α) (old e : α) : Prop :=
  ∃ x ∈ s.entries, Entry.same e x = true ∧ ∀ f ∈ s.entries, Entry.same f old = true ↔ f = x

/-- There is nothing to replace, or the new one is equal to it. -/
def Leaves (s : NamedSet α) (old e : α) : Prop :=
  s.contains old = false ∨ s.Restores old e

/-- The old one is there, and an entry stays that has the name of the new one and differs from
it. -/
def Refuses (s : NamedSet α) (old e : α) : Prop :=
  s.contains old = true ∧
    ∃ x ∈ s.entries, key x = key e ∧ Entry.same x old = false ∧ Entry.same x e = false

/-- The new set has what is not equal to the old one, and the new one where nothing of its name
stays. -/
structure Replaced (s : NamedSet α) (old e : α) (u : NamedSet α) : Prop where
  mode : u.mode = s.mode
  loose : u.handle = .loose
  mem_iff : ∀ f, f ∈ u.entries ↔ f ∈ s.entries ∧ Entry.same f old = false ∨
    f = e ∧ ∀ x ∈ s.entries, key x = key e → Entry.same x old = true

/-- Two old entries are replaced alike: both replacements leave the set, both are refused, or the
same entries other than the new one are equal to the old ones. -/
def ReplacesAlike (s : NamedSet α) (e old old' : α) : Prop :=
  s.Leaves old e ∧ s.Leaves old' e ∨ s.Refuses old e ∧ s.Refuses old' e ∨
    s.contains old = true ∧ s.contains old' = true ∧
      ∀ f ∈ s.entries, f ≠ e → Entry.same f old = Entry.same f old'

namespace Replaced

/-- The new one is there if it has been there before. -/
theorem mem_self (hu : s.Replaced old e u) (he : e ∈ s.entries) : e ∈ u.entries := by
  refine (hu.mem_iff e).2 ?_
  cases hsame : Entry.same e old with
  | false => exact .inl ⟨he, rfl⟩
  | true => exact .inr ⟨rfl, fun x hx hkey => s.ascending.eq_of_key hx he hkey ▸ hsame⟩

theorem mem_iff_of_ne (hu : s.Replaced old e u) (hne : f ≠ e) :
    f ∈ u.entries ↔ f ∈ s.entries ∧ Entry.same f old = false := by
  rw [hu.mem_iff, or_iff_left fun h => hne h.1]

/-- Where nothing else is told apart there is one new set. -/
theorem unique (hu : s.Replaced old e u) (hv : s.Replaced old' e v)
    (h : ∀ f ∈ s.entries, f ≠ e → Entry.same f old = Entry.same f old') : u = v := by
  have hmem : ∀ f, f ∈ u.entries ↔ f ∈ v.entries := by
    intro f
    by_cases hf : f = e
    · subst hf
      by_cases hold : f ∈ s.entries
      · exact iff_of_true (hu.mem_self hold) (hv.mem_self hold)
      · have hother : ∀ x ∈ s.entries, x ≠ f := fun x hx heq => hold (heq ▸ hx)
        rw [hu.mem_iff, hv.mem_iff]
        refine or_congr (and_congr_right fun hf => absurd hf hold) (and_congr_right fun _ => ?_)
        exact forall₂_congr fun x hx => by rw [h x hx (hother x hx)]
    · rw [hu.mem_iff_of_ne hf, hv.mem_iff_of_ne hf]
      exact and_congr_right fun hs => by rw [h f hs hf]
  have hnodup : ∀ w : NamedSet α, w.entries.Nodup := fun w => w.nodup_keys.of_map
  exact eq_of_perm (hu.mode.trans hv.mode.symm)
    ((List.perm_ext_iff_of_nodup (hnodup u) (hnodup v)).2 hmem) (hu.loose.trans hv.loose.symm)

/-- Conversely, all but the new one is told apart by the new sets. -/
theorem same_eq_of_eq (hu : s.Replaced old e u) (hv : s.Replaced old' e u) (hf : f ∈ s.entries)
    (hne : f ≠ e) : Entry.same f old = Entry.same f old' := by
  have hiff := (hu.mem_iff_of_ne hne).symm.trans (hv.mem_iff_of_ne hne)
  rw [and_iff_right hf, and_iff_right hf] at hiff
  rw [← Bool.not_inj_iff, Bool.eq_iff_iff, Bool.not_eq_true', Bool.not_eq_true', hiff]

variable [LawfulEntry α]

/-- A new set is equal to the old one only if the new entry restores what has been dropped. -/
theorem restores_of_same (hu : s.Replaced old e u) (hmode : (name e).mode = s.mode)
    (hold : s.contains old = true) (hsame : u.same s = true) : s.Restores old e := by
  rw [same, Bool.and_eq_true] at hsame
  -- what is dropped has no equal one in the new set but the new entry
  have hnew : ∀ x ∈ s.entries, Entry.same x old = true → Entry.same e x = true := by
    intro x hx hdropped
    obtain ⟨g, hg, hgx⟩ := exists_same_of_allSame_right hsame.2 hx
    rcases (hu.mem_iff g).1 hg with ⟨hgs, hkept⟩ | ⟨rfl, -⟩
    · rw [s.ascending.eq_of_key hgs hx (key_eq_of_same_mem (s.mode_of_mem g hgs) hx hgx),
        hdropped] at hkept
      cases hkept
    · exact hgx
  obtain ⟨x, hx, hdropped⟩ := exists_same_of_contains hold
  refine ⟨x, hx, hnew x hx hdropped, fun f hf => ⟨fun hf' => ?_, fun hfx => hfx ▸ hdropped⟩⟩
  have hkey : key e = key f := key_eq_of_same_mem hmode hf (hnew f hf hf')
  exact s.ascending.eq_of_key hf hx
    (hkey.symm.trans (key_eq_of_same_mem hmode hx (hnew x hx hdropped)))

theorem same_of_restores (hu : s.Replaced old e u) (hmode : (name e).mode = s.mode)
    (hself : ∀ x ∈ s.entries, Entry.same x x = true) (h : s.Restores old e) :
    u.same s = true := by
  obtain ⟨x, hx, hex, hdropped⟩ := h
  have hkey : key e = key x := key_eq_of_same_mem hmode hx hex
  have hmem : e ∈ u.entries := (hu.mem_iff e).2 <| .inr ⟨rfl, fun z hz hze =>
    (hdropped z hz).2 (s.ascending.eq_of_key hz hx (hze.trans hkey))⟩
  refine same_of_keys hu.mode (fun k => ?_) fun g hg f hf hgf => ?_
  · rw [List.mem_map, List.mem_map]
    constructor
    · rintro ⟨g, hg, rfl⟩
      rcases (hu.mem_iff g).1 hg with ⟨hgs, -⟩ | ⟨rfl, -⟩
      · exact ⟨g, hgs, rfl⟩
      · exact ⟨x, hx, hkey.symm⟩
    · rintro ⟨f, hf, rfl⟩
      cases hsame : Entry.same f old with
      | false => exact ⟨f, (hu.mem_iff f).2 (.inl ⟨hf, hsame⟩), rfl⟩
      | true => exact ⟨e, hmem, (hdropped f hf).1 hsame ▸ hkey⟩
  · rcases (hu.mem_iff g).1 hg with ⟨hgs, -⟩ | ⟨rfl, -⟩
    · exact s.ascending.eq_of_key hgs hf hgf ▸ hself g hgs
    · exact s.ascending.eq_of_key hf hx (hgf.symm.trans hkey) ▸ hex

end Replaced

/-! ## Replacing by an entry of the mode -/

theorem not_refuses_of_leaves [LawfulEntry α] (hmode : (name e).mode = s.mode)
    (h : s.Leaves old e) : ¬ s.Refuses old e := by
  rintro ⟨hold, z, hz, hze, hkept, -⟩
  rcases h with hnone | ⟨x, hx, hex, hdropped⟩
  · rw [hold] at hnone
    cases hnone
  · have hzx := s.ascending.eq_of_key hz hx (hze.trans (key_eq_of_same_mem hmode hx hex))
    rw [(hdropped z hz).2 hzx] at hkept
    cases hkept

/-- What is not the new entry decides whether a replacement is refused. -/
theorem Refuses.of_alike (h : s.Refuses old e) (hself : Entry.same e e = true)
    (hold : s.contains old' = true)
    (halike : ∀ f ∈ s.entries, f ≠ e → Entry.same f old = Entry.same f old') :
    s.Refuses old' e := by
  obtain ⟨-, x, hx, hkey, hkept, hdiffer⟩ := h
  have hne : x ≠ e := by
    rintro rfl
    rw [hself] at hdiffer
    cases hdiffer
  exact ⟨hold, x, hx, hkey, halike x hx hne ▸ hkept, hdiffer⟩

variable [SteadyEntry α]

/-- What is there is replaced, unless an entry stays that keeps the new one out. -/
theorem exists_replaced (settings : Settings) (hmode : (name e).mode = s.mode)
    (hself : ∀ x ∈ s.entries ++ [e], Entry.same x x = true) (hold : s.contains old = true) :
    ∃ u, s.Replaced old e u ∧
      (s.Refuses old e → s.replace settings old e = .error (.duplicateNames [name e])) ∧
      (¬ s.Refuses old e → s.replace settings old e = .ok (if u.same s then s else u)) := by
  let kept := s.entries.filter (fun x => !Entry.same x old)
  have hkept : AscendingBy key kept := s.ascending.sublist List.filter_sublist
  have hsub : kept ++ [e] ⊆ s.entries ++ [e] :=
    (List.filter_sublist.append_right [e]).subset
  have hmodes : ∀ x ∈ s.entries ++ [e], (name x).mode = s.mode := by
    intro x hx
    rcases List.mem_append.1 hx with hx | hx
    · exact s.mode_of_mem x hx
    · rwa [List.mem_singleton.1 hx]
  obtain ⟨u, humode, hentries, hloose, hof⟩ := exists_of_append settings hkept
    (fun x hx => hmodes x (hsub hx)) fun x hx => hself x (hsub hx)
  have hown : Entry.same e e = true :=
    hself e (List.mem_append_right _ (List.mem_singleton_self e))
  have hclash : s.Refuses old e ↔ isClash (kept ++ [e]) e = true := by
    rw [isClash_append_singleton hkept hown, Refuses, and_iff_right hold]
    simp only [kept, List.mem_filter, Bool.not_eq_true', and_assoc, and_left_comm]
  have hreplace : s.replace settings old e =
      (of settings s.mode (kept ++ [e])).map (fun u => if u.same s then s else u) := by
    rw [replace, if_pos hold, update_eq]
  refine ⟨u, ⟨humode, hloose, fun f => ?_⟩, fun h => ?_, fun h => ?_⟩
  · have hplaced : u.entries = placeBy key e kept := hentries
    simp only [hplaced, kept, mem_placeBy_filter, Bool.not_eq_true', Bool.not_eq_false']
  · have hone : clashing kept [e] = [e] := List.filter_cons_of_pos (hclash.1 h)
    rw [hreplace, hof, hone]
    rfl
  · have hnone : clashing kept [e] = [] := List.filter_cons_of_neg (mt hclash.2 h)
    rw [hreplace, hof, hnone]
    rfl

/-- What cannot be brought into the mode of the set takes no place in it. -/
theorem replace_of_withMode_error {r : Rejection}
    (hy : Entry.withMode settings s.mode y = .error r) (old : α) :
    s.replace settings old y = if s.contains old then .error r else .ok s := by
  have hkept : (s.entries.filter (fun x => !Entry.same x old)).mapM
      (Entry.withMode settings s.mode) = .ok (s.entries.filter (fun x => !Entry.same x old)) :=
    mapM_withMode_of_mode settings fun x hx => s.mode_of_mem x (List.mem_filter.1 hx).1
  have hmapM : (s.entries.filter (fun x => !Entry.same x old) ++ [y]).mapM
      (Entry.withMode settings s.mode) = .error r := by
    rw [List.mapM_append, hkept, List.mapM_cons, hy]
    rfl
  rw [replace, update_eq, of_eq_error hmapM]
  rfl

theorem replace_eq_replace_iff_of_error {r : Rejection}
    (hy : Entry.withMode settings s.mode y = .error r) :
    s.replace settings old y = s.replace settings old' y ↔ s.contains old = s.contains old' := by
  rw [replace_of_withMode_error hy, replace_of_withMode_error hy]
  cases s.contains old <;> cases s.contains old' <;> simp

section Outcome

variable [LawfulEntry α]

theorem replace_of_leaves (settings : Settings) (hmode : (name e).mode = s.mode)
    (hself : ∀ x ∈ s.entries ++ [e], Entry.same x x = true) (h : s.Leaves old e) :
    s.replace settings old e = .ok s := by
  cases hold : s.contains old with
  | false => rw [replace, if_neg (by rw [hold]; exact Bool.false_ne_true)]
  | true =>
    obtain ⟨u, hu, -, hok⟩ := exists_replaced settings hmode hself hold
    have hrestores : s.Restores old e := h.resolve_left (by simp [hold])
    have hsame : u.same s = true :=
      hu.same_of_restores hmode (fun x hx => hself x (List.mem_append_left _ hx)) hrestores
    rw [hok (not_refuses_of_leaves hmode h), if_pos hsame]

/-- A replacement leaves the set, is refused, or makes another set. -/
theorem replace_cases (settings : Settings) (hmode : (name e).mode = s.mode)
    (hself : ∀ x ∈ s.entries ++ [e], Entry.same x x = true) (old : α) :
    s.Leaves old e ∧ s.replace settings old e = .ok s ∨
    s.Refuses old e ∧ s.replace settings old e = .error (.duplicateNames [name e]) ∨
    s.contains old = true ∧
      ∃ u, s.Replaced old e u ∧ u ≠ s ∧ s.replace settings old e = .ok u := by
  by_cases hleaves : s.Leaves old e
  · exact .inl ⟨hleaves, replace_of_leaves settings hmode hself hleaves⟩
  have hold : s.contains old = true := Bool.not_eq_false _ ▸ fun h => hleaves (.inl h)
  obtain ⟨u, hu, herror, hok⟩ := exists_replaced settings hmode hself hold
  by_cases hrefuses : s.Refuses old e
  · exact .inr (.inl ⟨hrefuses, herror hrefuses⟩)
  have hdiffer : ¬ u.same s = true := fun hsame =>
    hleaves (.inr (hu.restores_of_same hmode hold hsame))
  refine .inr (.inr ⟨hold, u, hu, ?_, by rw [hok hrefuses, if_neg hdiffer]⟩)
  rintro rfl
  exact hdiffer (same_self fun x hx => hself x (List.mem_append_left _ hx))

/-- Two replacements by an entry come to the same exactly if both leave the set, both are refused,
or what they drop differs in nothing but that entry. -/
theorem replace_eq_replace_iff (hy : Entry.withMode settings s.mode y = .ok e)
    (hself : ∀ x ∈ s.entries ++ [e], Entry.same x x = true) :
    s.replace settings old y = s.replace settings old' e ↔ s.ReplacesAlike e old old' := by
  have hmode : (name e).mode = s.mode := Entry.mode_of_withMode hy
  have hown : Entry.same e e = true :=
    hself e (List.mem_append_right _ (List.mem_singleton_self e))
  have hconverted : s.replace settings old y = s.replace settings old e :=
    replace_congr (fun _ _ => rfl) rfl (hy.trans (SteadyEntry.withMode_of_mode hmode).symm)
  rw [hconverted]
  constructor
  · intro h
    -- of the nine pairs of outcomes only those of one kind can be equal
    rcases replace_cases settings hmode hself old with
      ⟨hleaves, heq⟩ | ⟨hrefuses, heq⟩ | ⟨hold, u, hu, hne, heq⟩ <;>
    rcases replace_cases settings hmode hself old' with
      ⟨hleaves', heq'⟩ | ⟨hrefuses', heq'⟩ | ⟨hold', v, hv, hne', heq'⟩ <;>
    rw [heq, heq'] at h
    case inl.inl => exact .inl ⟨hleaves, hleaves'⟩
    case inl.inr.inl => cases h
    case inl.inr.inr => exact absurd (Except.ok.inj h).symm hne'
    case inr.inl.inl => cases h
    case inr.inl.inr.inl => exact .inr (.inl ⟨hrefuses, hrefuses'⟩)
    case inr.inl.inr.inr => cases h
    case inr.inr.inl => exact absurd (Except.ok.inj h) hne
    case inr.inr.inr.inl => cases h
    case inr.inr.inr.inr =>
      obtain rfl := Except.ok.inj h
      exact .inr (.inr ⟨hold, hold', fun f hf hne => hu.same_eq_of_eq hv hf hne⟩)
  · rintro (⟨hleaves, hleaves'⟩ | ⟨hrefuses, hrefuses'⟩ | ⟨hold, hold', halike⟩)
    · rw [replace_of_leaves settings hmode hself hleaves,
        replace_of_leaves settings hmode hself hleaves']
    · obtain ⟨-, -, herror, -⟩ := exists_replaced settings hmode hself hrefuses.1
      obtain ⟨-, -, herror', -⟩ := exists_replaced settings hmode hself hrefuses'.1
      rw [herror hrefuses, herror' hrefuses']
    · obtain ⟨u, hu, herror, hok⟩ := exists_replaced settings hmode hself hold
      obtain ⟨v, hv, herror', hok'⟩ := exists_replaced settings hmode hself hold'
      by_cases hrefuses : s.Refuses old e
      · rw [herror hrefuses, herror' (hrefuses.of_alike hown hold' halike)]
      · have hrefuses' : ¬ s.Refuses old' e := fun h =>
          hrefuses (h.of_alike hown hold fun f hf hne => (halike f hf hne).symm)
        rw [hok hrefuses, hok' hrefuses', hu.unique hv halike]

end Outcome

end FunctionCatalog.NamedSet
