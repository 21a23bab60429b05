import FunctionCatalog.NamedSet.Algebra
import FunctionCatalog.Proofs.NamedSet.Names

/-
  FunctionCatalog: what a change makes of a set.
  A change is the receiver itself where nothing would change, and is built of the entries that it
  keeps and takes in otherwise (`exists_of_updateSteps`). Entries that a set has stay as they are,
  so what only drops entries always succeeds and keeps just the others (`exists_keepIf`).
-/

namespace FunctionCatalog

/-- Entries that stay as they are in the mode that they have. -/
class SteadyEntry (α : Type) [Entry α] : Prop where
  withMode_of_mode {settings : Settings} {mode : CaseMode} {e : α} :
    (Entry.name e).mode = mode → Entry.withMode settings mode e = .ok e

/-- Of elements in order there is one for each key. -/
theorem AscendingBy.eq_of_key {α : Type} {key : α → String} {xs : List α} {a b : α}
    (h : AscendingBy key xs) (ha : a ∈ xs) (hb : b ∈ xs) (heq : key a = key b) : a = b := by
  induction xs with
  | nil => cases ha
  | cons x xs ih =>
    obtain ⟨hx, hxs⟩ := List.pairwise_cons.1 h.distinct
    rcases List.mem_cons.1 ha with rfl | ha'
    · rcases List.mem_cons.1 hb with rfl | hb
      · rfl
      · exact absurd heq (hx b hb)
    · rcases List.mem_cons.1 hb with rfl | hb'
      · exact absurd heq.symm (hx a ha')
      · exact ih (List.pairwise_cons.1 h).2 ha' hb'

namespace NamedSet
open Entry

variable {α ε : Type} [Entry α] {settings : Settings} {mode : CaseMode} {s t : NamedSet α}
  {e : α} {es fs : List α}

/-- Under a folded name stands the entry with that name. -/
theorem find?_eq_some_iff {folded : String} :
    s.find? folded = some e ↔ e ∈ s.entries ∧ key e = folded := by
  constructor
  · intro h
    have hfound := List.find?_some h
    exact ⟨List.mem_of_find?_eq_some h, beq_iff_eq.1 hfound⟩
  · rintro ⟨he, rfl⟩
    cases hfind : s.find? (key e) with
    | none =>
      have hnone := List.find?_eq_none.1 hfind e he
      simp at hnone
    | some f =>
      have hfound := List.find?_some hfind
      rw [s.ascending.eq_of_key (List.mem_of_find?_eq_some hfind) he (beq_iff_eq.1 hfound)]

/-! ## Changes -/

theorem update_eq (settings : Settings) (s : NamedSet α) (es : List α) :
    s.update settings es =
      (of settings s.mode es).map (fun u => if u.same s then s else u) := by
  show (of settings s.mode es >>= fun u => .ok (if u.same s then s else u)) = _
  cases of settings s.mode es <;> rfl

/-- A change is the receiver, or is built of entries other than those of the receiver. -/
theorem exists_of_updateSteps {refuse : Rejection → ε} {steps : List (Except ε α)}
    (h : s.updateSteps refuse settings steps = .ok t) :
    ∃ (entries : List α) (u : NamedSet α), steps = entries.map .ok ∧
      of settings s.mode entries = .ok u ∧
      (u.same s = true ∧ t = s ∨ u.same s = false ∧ t = u) := by
  obtain ⟨u, hsteps, hchoice⟩ := exists_of_bind_ok h
  obtain ⟨entries, hentries, hu⟩ := exists_of_ofSteps hsteps
  refine ⟨entries, u, hentries, hu, ?_⟩
  obtain rfl := Except.ok.inj hchoice
  cases hsame : u.same s with
  | true => exact .inl ⟨rfl, if_pos rfl⟩
  | false => exact .inr ⟨rfl, if_neg Bool.false_ne_true⟩

theorem length_of_allSame (h : allSame es fs = true) : es.length = fs.length := by
  induction es generalizing fs with
  | nil =>
    cases fs with
    | nil => rfl
    | cons f fs => cases h
  | cons e es ih =>
    cases fs with
    | nil => cases h
    | cons f fs => exact congrArg (· + 1) (ih (Bool.and_eq_true_iff.1 h).2)

theorem exists_same_of_allSame_right {f : α} (h : allSame es fs = true) (hf : f ∈ fs) :
    ∃ e ∈ es, Entry.same e f = true := by
  induction es generalizing fs with
  | nil =>
    cases fs with
    | nil => cases hf
    | cons f' fs => cases h
  | cons e es ih =>
    cases fs with
    | nil => cases h
    | cons f' fs =>
      rw [allSame, Bool.and_eq_true] at h
      rcases List.mem_cons.1 hf with rfl | hf
      · exact ⟨e, List.mem_cons_self, h.1⟩
      · obtain ⟨e', he', hsame⟩ := ih h.2 hf
        exact ⟨e', List.mem_cons_of_mem e he', hsame⟩

/-- Equal names are equal under the mode that both have. -/
theorem key_eq_of_same {e f : α} (hmode : (name e).mode = (name f).mode)
    (h : (name e).same (name f) = true) : key e = key f := by
  rw [Name.same, hmode, CaseMode.join_self, beq_iff_eq] at h
  rw [key, key, Name.key, Name.key, hmode, h]

/-- What is equal to an entry of a set has its name. -/
theorem key_eq_of_same_mem [LawfulEntry α] {f : α} (hmode : (name e).mode = s.mode)
    (hf : f ∈ s.entries) (h : Entry.same e f = true) : key e = key f :=
  key_eq_of_same (hmode.trans (s.mode_of_mem f hf).symm) (LawfulEntry.name_same h)

section Names

variable {text : String} [LawfulEntry α]

/-- A set has no names but those of what it was built of. -/
theorem exists_of_containsName_of (h : of settings mode es = .ok t)
    (ht : t.containsName text = true) :
    ∃ e ∈ es, mode.fold (name e).value = mode.fold text := by
  obtain ⟨hmode, fs, hfs, hentries⟩ := exists_converted_of h
  rw [containsName_iff, hentries, mem_map_sortDistinctBy, List.mem_map] at ht
  obtain ⟨f, hf, hkey⟩ := ht
  obtain ⟨e, he, hef⟩ := exists_of_mem_mapM hfs f hf
  refine ⟨e, he, ?_⟩
  rw [key, Name.key, Entry.mode_of_withMode hef, LawfulEntry.value_of_withMode hef, fold,
    hmode] at hkey
  exact hkey

/-- A changed set has no names but those of its new entries. -/
theorem exists_of_containsName_updateSteps {refuse : Rejection → ε} {steps : List (Except ε α)}
    (h : s.updateSteps refuse settings steps = .ok t) (ht : t.containsName text = true) :
    ∃ e, .ok e ∈ steps ∧ s.mode.fold (name e).value = s.mode.fold text := by
  obtain ⟨entries, u, rfl, hu, hchoice⟩ := exists_of_updateSteps h
  have hcontains : u.containsName text = true := by
    rcases hchoice with ⟨hsame, rfl⟩ | ⟨-, rfl⟩
    · -- the receiver has only the names of the set that is equal to it
      rw [same, Bool.and_eq_true, beq_iff_eq] at hsame
      rw [containsName_iff, List.mem_map] at ht ⊢
      obtain ⟨f, hf, hkey⟩ := ht
      obtain ⟨e, he, hef⟩ := exists_same_of_allSame_right hsame.2 hf
      have hmode : (name e).mode = t.mode := (u.mode_of_mem e he).trans hsame.1
      refine ⟨e, he, ?_⟩
      rw [key_eq_of_same_mem hmode hf hef, hkey, fold, fold, hsame.1]
    · exact ht
  obtain ⟨e, he, hfold⟩ := exists_of_containsName_of hu hcontains
  exact ⟨e, List.mem_map_of_mem he, hfold⟩

end Names

/-! ## Dropping entries -/

section Steady

variable [SteadyEntry α]

theorem mapM_withMode_of_mode (settings : Settings) (h : ∀ e ∈ es, (name e).mode = mode) :
    es.mapM (Entry.withMode settings mode) = .ok es := by
  have hself : ∀ e ∈ es, Entry.withMode settings mode e = .ok (id e) :=
    fun e he => SteadyEntry.withMode_of_mode (h e he)
  rw [mapM_eq_ok_map hself, List.map_id]

/-- Entries of the mode that are in order make a set of just these. -/
theorem exists_of_ascending (settings : Settings) (hmode : ∀ e ∈ es, (name e).mode = mode)
    (h : AscendingBy key es) :
    ∃ t, of settings mode es = .ok t ∧ t.mode = mode ∧ t.entries = es := by
  obtain ⟨t, ht, htmode, hentries⟩ := exists_of (mapM_withMode_of_mode settings hmode) h.distinct
  exact ⟨t, ht, htmode, hentries.trans (sortDistinctBy_of_ascending h)⟩

/-- A change to some of the entries succeeds and has just these. -/
theorem exists_update_of_sublist (settings : Settings) (h : es.Sublist s.entries) :
    ∃ t, s.update settings es = .ok t ∧ t.entries = es := by
  have hmodes : ∀ e ∈ es, (name e).mode = s.mode := fun e he => s.mode_of_mem e (h.subset he)
  have hascending : AscendingBy key es := List.Pairwise.sublist h s.ascending
  obtain ⟨u, hu, -, hentries⟩ :=
    exists_of (mapM_withMode_of_mode settings hmodes) hascending.distinct
  rw [sortDistinctBy_of_ascending hascending] at hentries
  refine ⟨if u.same s then s else u, by rw [update_eq, hu]; rfl, ?_⟩
  by_cases hsame : u.same s = true
  · rw [if_pos hsame]
    rw [same, Bool.and_eq_true, hentries] at hsame
    exact (h.eq_of_length (length_of_allSame hsame.2)).symm
  · rw [if_neg hsame, hentries]

theorem exists_keepIf (settings : Settings) (s : NamedSet α) (p : α → Bool) :
    ∃ t, s.keepIf settings p = .ok t ∧ t.entries = s.entries.filter p :=
  exists_update_of_sublist settings List.filter_sublist

/-- Keeping entries by two conditions comes to the same exactly if they agree on all entries. -/
theorem keepIf_eq_keepIf_iff {p q : α → Bool} :
    s.keepIf settings p = s.keepIf settings q ↔ ∀ e ∈ s.entries, p e = q e := by
  constructor
  · intro h e he
    obtain ⟨t, ht, hp⟩ := exists_keepIf settings s p
    obtain ⟨u, hu, hq⟩ := exists_keepIf settings s q
    have hfilter : s.entries.filter p = s.entries.filter q := by
      rw [ht, hu] at h
      rw [← hp, ← hq, Except.ok.inj h]
    have hmem : e ∈ s.entries.filter p ↔ e ∈ s.entries.filter q := by rw [hfilter]
    rw [List.mem_filter, List.mem_filter, and_iff_right he, and_iff_right he] at hmem
    exact Bool.eq_iff_iff.2 hmem
  · intro h
    rw [keepIf, keepIf, List.filter_congr h]

end Steady

/-! ## Entries that come to the same in the mode of a set -/

theorem Draft.add_congr {d : Draft α mode} {f : α}
    (h : Entry.withMode settings mode e = Entry.withMode settings mode f) :
    d.add settings e = d.add settings f := by
  cases hf : Entry.withMode settings mode f with
  | error r => rw [add_of_error (h.trans hf), add_of_error hf]
  | ok f' => rw [add_of_ok (h.trans hf), add_of_ok hf]

/-- A set is built alike of entries that come to the same in its mode. -/
theorem of_congr (h : es.map (Entry.withMode settings mode) = fs.map (Entry.withMode settings mode)) :
    of settings mode es = of settings mode fs := by
  have hfold : ∀ d : Draft α mode, es.foldlM (Draft.add settings) d =
      fs.foldlM (Draft.add settings) d := by
    induction es generalizing fs with
    | nil =>
      obtain rfl := List.map_eq_nil_iff.1 h.symm
      exact fun d => rfl
    | cons e es ih =>
      cases fs with
      | nil => cases h
      | cons f fs =>
        obtain ⟨hhead, htail⟩ := List.cons.inj h
        intro d
        rw [List.foldlM_cons, List.foldlM_cons, Draft.add_congr hhead]
        exact congrArg _ (funext (ih htail))
  rw [of_eq, of_eq, hfold]

theorem update_append_congr {f : α}
    (h : Entry.withMode settings s.mode e = Entry.withMode settings s.mode f) :
    s.update settings (es ++ [e]) = s.update settings (es ++ [f]) := by
  have hof : of settings s.mode (es ++ [e]) = of settings s.mode (es ++ [f]) :=
    of_congr (by rw [List.map_append, List.map_append, List.map_singleton, List.map_singleton, h])
  rw [update_eq, update_eq, hof]

end NamedSet

end FunctionCatalog
