import FunctionCatalog.Proofs.NamedSet.Build

/-
  FunctionCatalog: which names a set has.
  A set compares by folded names, and which they are does not depend on what stands under them. So a
  set has the name of everything that it was built of (`containsName_of`), and a changed set that of
  each of its new entries, also where it is the receiver itself (`containsName_updateSteps`).
-/

namespace FunctionCatalog

/-- Entries that keep the text of their name in another mode, and whose names are equal where they
are. -/
class LawfulEntry (α : Type) [Entry α] : Prop where
  value_of_withMode {settings : Settings} {mode : CaseMode} {a b : α} :
    Entry.withMode settings mode a = .ok b → (Entry.name b).value = (Entry.name a).value
  name_same {a b : α} : Entry.same a b = true → (Entry.name a).same (Entry.name b) = true

section Keys

variable {α : Type} {key : α → String} {k : String} {x : α} {xs : List α}

theorem mem_map_placeBy : k ∈ (placeBy key x xs).map key ↔ k = key x ∨ k ∈ xs.map key := by
  induction xs with
  | nil => simp [placeBy]
  | cons a as ih =>
    rw [placeBy]
    by_cases hlt : key x < key a
    · rw [if_pos hlt, List.map_cons, List.mem_cons]
    · by_cases heq : key x = key a
      · rw [if_neg hlt, if_pos heq, heq, List.map_cons, List.mem_cons, or_self_left]
      · rw [if_neg hlt, if_neg heq, List.map_cons, List.map_cons, List.mem_cons, List.mem_cons, ih]
        exact or_left_comm

/-- Putting elements in order drops none of their keys. -/
theorem mem_map_sortDistinctBy : k ∈ (sortDistinctBy key xs).map key ↔ k ∈ xs.map key := by
  have hfold : ∀ ys : List α,
      k ∈ (xs.foldl (fun sorted x => placeBy key x sorted) ys).map key ↔
        k ∈ ys.map key ∨ k ∈ xs.map key := by
    induction xs with
    | nil => simp
    | cons x xs ih =>
      intro ys
      rw [List.foldl_cons, ih, mem_map_placeBy, List.map_cons, List.mem_cons]
      exact or_assoc.trans or_left_comm
  exact (hfold []).trans (or_iff_right (by simp))

end Keys

namespace NamedSet
open Entry

variable {α ε : Type} [Entry α] {settings : Settings} {mode : CaseMode} {s t : NamedSet α} {e : α}
  {text : String}

/-! ## The names that are there -/

theorem containsName_iff : s.containsName text = true ↔ s.fold text ∈ s.entries.map key := by
  simp only [containsName, get?, find?, List.find?_isSome, beq_iff_eq, List.mem_map]

theorem containsName_of_fold {text' : String} (hmode : s.mode = mode)
    (hfold : mode.fold text = mode.fold text') (h : s.containsName text = true) :
    s.containsName text' = true := by
  rw [containsName_iff, fold, hmode] at h ⊢
  rwa [← hfold]

theorem fold_of_get (hmode : s.mode = mode) (h : s.get? text = some e) :
    mode.fold (name e).value = mode.fold text := by
  have hname : (name e).mode = s.mode := s.mode_of_mem e (List.mem_of_find?_eq_some h)
  have hkey : key e = s.fold text := by simpa using List.find?_some h
  rwa [key, Name.key, hname, fold, hmode] at hkey

/-- Which names a set has depends on its mode and its keys alone. -/
theorem containsName_of_keys {β : Type} [Entry β] {u : NamedSet β} (hmode : u.mode = s.mode)
    (hkeys : u.entries.map key = s.entries.map key) (text : String) :
    u.containsName text = s.containsName text := by
  rw [Bool.eq_iff_iff, containsName_iff, containsName_iff, hkeys, fold, fold, hmode]

theorem containsName_lift {β : Type} [Entry β] (f : α → β) (hf : ∀ a, name (f a) = name a)
    (s : NamedSet α) (text : String) :
    (s.lift f hf).containsName text = s.containsName text := by
  have hmode : (s.lift f hf).mode = s.mode := rfl
  refine containsName_of_keys hmode ?_ text
  show (s.entries.map f).map key = _
  rw [List.map_map]
  exact List.map_congr_left fun a _ => congrArg Name.key (hf a)

theorem eq_of_ofEntries {entries : List α} {handle : Handle}
    (h : ofEntries? mode entries handle = some s) : s.mode = mode ∧ s.entries = entries := by
  unfold ofEntries? at h
  split at h
  · cases h
    exact ⟨rfl, rfl⟩
  · cases h

theorem exists_same_of_allSame {es fs : List α} (h : allSame es fs = true) (he : e ∈ es) :
    ∃ f ∈ fs, Entry.same e f = true := by
  induction es generalizing fs with
  | nil => cases he
  | cons e' es ih =>
    cases fs with
    | nil => cases h
    | cons f fs =>
      rw [allSame, Bool.and_eq_true] at h
      rcases List.mem_cons.1 he with rfl | he
      · exact ⟨f, List.mem_cons_self, h.1⟩
      · obtain ⟨g, hg, hsame⟩ := ih h.2 he
        exact ⟨g, List.mem_cons_of_mem f hg, hsame⟩

/-! ## Entries that are worked out one by one -/

theorem Draft.exists_of_foldlM {refuse : Rejection → ε} {steps : List (Except ε α)}
    {d d' : Draft α mode}
    (h : steps.foldlM (fun d step => do (Draft.add settings d (← step)).mapError refuse) d =
      .ok d') :
    ∃ entries : List α, steps = entries.map .ok ∧ entries.foldlM (Draft.add settings) d = .ok d' := by
  induction steps generalizing d with
  | nil => exact ⟨[], rfl, congrArg Except.ok (Except.ok.inj h)⟩
  | cons step steps ih =>
    rw [List.foldlM_cons] at h
    obtain ⟨d₁, hadd, hrest⟩ := exists_of_bind_ok h
    obtain ⟨e, rfl, hadd⟩ := exists_of_bind_ok hadd
    obtain ⟨entries, rfl, hfold⟩ := ih hrest
    refine ⟨e :: entries, rfl, ?_⟩
    rw [List.foldlM_cons, ok_of_mapError_ok hadd]
    exact hfold

/-- Where a set comes of steps, each of them gave an entry. -/
theorem exists_of_ofSteps {refuse : Rejection → ε} {steps : List (Except ε α)}
    (h : ofSteps refuse settings mode steps = .ok t) :
    ∃ entries : List α, steps = entries.map .ok ∧ of settings mode entries = .ok t := by
  obtain ⟨d, hfold, hfinish⟩ := exists_of_bind_ok h
  obtain ⟨entries, hsteps, hentries⟩ := Draft.exists_of_foldlM hfold
  refine ⟨entries, hsteps, ?_⟩
  rw [of_eq, hentries]
  exact ok_of_mapError_ok hfinish

/-! ## The names of a set that is built -/

variable [LawfulEntry α]

/-- A set has the name of everything that it was built of. -/
theorem containsName_of {entries : List α} (h : of settings mode entries = .ok t)
    (he : e ∈ entries) : t.containsName (name e).value = true := by
  obtain ⟨hmode, es, hes, hentries⟩ := exists_converted_of h
  obtain ⟨e', he', hconverted⟩ := exists_of_mapM_ok hes e he
  have hkey : key e' = t.fold (name e).value := by
    rw [key, Name.key, Entry.mode_of_withMode hconverted, fold, hmode,
      LawfulEntry.value_of_withMode hconverted]
  rw [containsName_iff, hentries, mem_map_sortDistinctBy, ← hkey]
  exact List.mem_map_of_mem he'

/-- Equal sets have the same names. -/
theorem containsName_of_same (h : s.same t = true) (ht : s.containsName text = true) :
    t.containsName text = true := by
  rw [same, Bool.and_eq_true, beq_iff_eq] at h
  obtain ⟨hmode, hentries⟩ := h
  rw [containsName_iff, List.mem_map] at ht ⊢
  obtain ⟨e, he, hkey⟩ := ht
  obtain ⟨f, hf, hsame⟩ := exists_same_of_allSame hentries he
  have hnames := LawfulEntry.name_same hsame
  have he' : (name e).mode = t.mode := (s.mode_of_mem e he).trans hmode
  have hf' : (name f).mode = t.mode := t.mode_of_mem f hf
  rw [Name.same, he', hf', t.mode.join_self, beq_iff_eq] at hnames
  refine ⟨f, hf, ?_⟩
  rw [fold, ← hmode, ← fold, ← hkey, key, key, Name.key, Name.key, he', hf', hnames]

/-- A changed set keeps its mode and has the name of each of its new entries. -/
theorem containsName_updateSteps {refuse : Rejection → ε} {steps : List (Except ε α)}
    (h : s.updateSteps refuse settings steps = .ok t) :
    t.mode = s.mode ∧ ∀ e, .ok e ∈ steps → t.containsName (name e).value = true := by
  obtain ⟨u, hsteps, hchoice⟩ := exists_of_bind_ok h
  obtain ⟨entries, rfl, hu⟩ := exists_of_ofSteps hsteps
  have hnames : ∀ e, .ok e ∈ entries.map (Except.ok : α → Except ε α) →
      u.containsName (name e).value = true := by
    intro e he
    obtain ⟨e', he', heq⟩ := List.mem_map.1 he
    exact containsName_of hu (Except.ok.inj heq ▸ he')
  obtain rfl := Except.ok.inj hchoice
  by_cases hsame : u.same s = true
  · rw [if_pos hsame]
    exact ⟨rfl, fun e he => containsName_of_same hsame (hnames e he)⟩
  · rw [if_neg hsame]
    exact ⟨(exists_converted_of hu).1, hnames⟩

end NamedSet

end FunctionCatalog
