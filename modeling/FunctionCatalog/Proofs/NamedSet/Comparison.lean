import FunctionCatalog.Proofs.Name
import FunctionCatalog.Proofs.NamedSet.Change

/-
  FunctionCatalog: what a set makes of an argument in another mode.
  Lookups fold a name by the mode of the set, and so does whatever comes into a set. Deletions and
  replacements compare the entries with the argument as it is, and by their joint mode that is a
  wider comparison. Deletions come to the same for two arguments exactly if every entry compares with
  both alike (`ComparesAlike`), and replacements do if the arguments have a folded name, too.
-/

namespace FunctionCatalog.NamedSet
open Entry

variable {α : Type} [Entry α] {settings : Settings} {s : NamedSet α} {x x' y y' : α}

/-- Every entry of a set compares with two others alike. -/
def ComparesAlike (s : NamedSet α) (x x' : α) : Prop :=
  ∀ e ∈ s.entries, Entry.same e x = Entry.same e x'

theorem contains_congr (h : s.ComparesAlike x x')
    (hname : s.fold (name x).value = s.fold (name x').value) : s.contains x = s.contains x' := by
  unfold contains get?
  rw [hname]
  cases hfind : s.find? (s.fold (name x').value) with
  | none => rfl
  | some e => exact h e (List.mem_of_find?_eq_some hfind)

/-- What comes into a set is brought into its mode first. -/
theorem concat_congr
    (h : Entry.withMode settings s.mode x = Entry.withMode settings s.mode x') :
    s.concat settings x = s.concat settings x' :=
  update_append_congr h

theorem replace_congr (h : s.ComparesAlike x x')
    (hname : s.fold (name x).value = s.fold (name x').value)
    (hy : Entry.withMode settings s.mode y = Entry.withMode settings s.mode y') :
    s.replace settings x y = s.replace settings x' y' := by
  have hkept : s.entries.filter (fun e => !Entry.same e x) =
      s.entries.filter (fun e => !Entry.same e x') :=
    List.filter_congr fun e he => congrArg _ (h e he)
  rw [replace, replace, contains_congr h hname, hkept, update_append_congr hy]

section Deletion

variable [SteadyEntry α]

theorem deleteIf_eq_deleteIf_iff {p q : α → Bool} :
    s.deleteIf settings p = s.deleteIf settings q ↔ ∀ e ∈ s.entries, p e = q e := by
  simp only [deleteIf, keepIf_eq_keepIf_iff, Bool.not_inj_iff]

theorem delete_eq_delete_iff :
    s.delete settings x = s.delete settings x' ↔ s.ComparesAlike x x' :=
  deleteIf_eq_deleteIf_iff

theorem deleteAll_eq_deleteAll_iff :
    s.deleteAll settings [x] = s.deleteAll settings [x'] ↔ s.ComparesAlike x x' := by
  simp only [deleteAll, deleteIf_eq_deleteIf_iff, List.any_cons, List.any_nil, Bool.or_false,
    ComparesAlike]

end Deletion

/-! ## Entries of an equal name -/

/-- A name equal to another one under the mode of the first is equal to it under their joint
mode. -/
theorem same_of_fold {m n : Name} (h : m.mode.fold m.value = m.mode.fold n.value) :
    m.same n = true := by
  cases hm : m.mode with
  | sensitive =>
    rw [hm] at h
    exact Name.same_of_value h
  | insensitive =>
    rw [hm] at h
    have hjoin : m.mode.join n.mode = .insensitive := by
      rw [hm]
      cases n.mode <;> rfl
    rw [Name.same, hjoin, beq_iff_eq]
    exact h

variable [LawfulEntry α]

/-- An entry and an argument in the mode of the set are equal by name if their folded names are. -/
theorem name_same_iff_of_withMode {e : α} (hx : Entry.withMode settings s.mode x = .ok x')
    (he : e ∈ s.entries) :
    (name e).same (name x') = true ↔ key e = s.fold (name x).value := by
  have hmode : (name e).mode = s.mode := s.mode_of_mem e he
  have hx' : (name x').mode = s.mode := Entry.mode_of_withMode hx
  have hkey : key x' = s.fold (name x).value := by
    rw [key, Name.key, hx', LawfulEntry.value_of_withMode hx, fold]
  rw [← hkey]
  constructor
  · exact key_eq_of_same (hmode.trans hx'.symm)
  · intro h
    rw [key, key, Name.key, Name.key, hx', ← hmode] at h
    exact same_of_fold h

theorem exists_concatOrReplace [SteadyEntry α] (hx : Entry.withMode settings s.mode x = .ok x') :
    ∃ t, s.concatOrReplace settings x' = .ok t := by
  have hmodes : ∀ e ∈ s.entries.filter (fun e => !(name e).same (name x')) ++ [x'],
      (name e).mode = s.mode := by
    intro e he
    rcases List.mem_append.1 he with he | he
    · exact s.mode_of_mem e (List.mem_filter.1 he).1
    · rw [List.mem_singleton.1 he]
      exact Entry.mode_of_withMode hx
  have hdistinct : (s.entries.filter (fun e => !(name e).same (name x')) ++ [x']).Pairwise
      (fun a b => key a ≠ key b) := by
    refine List.pairwise_append.2 ⟨s.ascending.distinct.sublist List.filter_sublist,
      List.pairwise_singleton _ _, fun e he f hf hkey => ?_⟩
    rw [List.mem_singleton.1 hf] at hkey
    obtain ⟨he, hdiffer⟩ := List.mem_filter.1 he
    have hfold : key x' = s.fold (name x).value := by
      rw [key, Name.key, Entry.mode_of_withMode hx, LawfulEntry.value_of_withMode hx, fold]
    rw [(name_same_iff_of_withMode hx he).2 (hkey.trans hfold)] at hdiffer
    cases hdiffer
  obtain ⟨u, hu, -⟩ := exists_of (mapM_withMode_of_mode settings hmodes) hdistinct
  exact ⟨if u.same s then s else u, by rw [concatOrReplace, update_eq, hu]; rfl⟩

/-- Putting an entry in the place of those with an equal name comes to the same for the argument
and for what it is in the mode of the set exactly if no entry of another folded name has an equal
name. -/
theorem concatOrReplace_eq_iff [SteadyEntry α]
    (hx : Entry.withMode settings s.mode x = .ok x') :
    s.concatOrReplace settings x = s.concatOrReplace settings x' ↔
      ∀ e ∈ s.entries, (name e).same (name x) = true → key e = s.fold (name x).value := by
  have hx' : Entry.withMode settings s.mode x' = .ok x' :=
    SteadyEntry.withMode_of_mode (Entry.mode_of_withMode hx)
  constructor
  · intro h e he hsame
    refine Decidable.byContradiction fun hkey => ?_
    -- the entry stays beside the converted argument, but not beside the argument as it is
    have hkept : (!(name e).same (name x')) = true := by
      rw [Bool.not_eq_true', ← Bool.not_eq_true]
      exact fun hsame' => hkey ((name_same_iff_of_withMode hx he).1 hsame')
    obtain ⟨t, ht⟩ := exists_concatOrReplace hx
    have hcontains : t.containsName (name e).value = true :=
      (containsName_updateSteps ht).2 e (List.mem_map_of_mem
        (List.mem_append_left _ (List.mem_filter.2 ⟨he, hkept⟩)))
    obtain ⟨f, hf, hfold⟩ := exists_of_containsName_updateSteps (h.trans ht) hcontains
    obtain ⟨f', hf', heq⟩ := List.mem_map.1 hf
    obtain rfl := Except.ok.inj heq
    have hkey_e : key e = s.mode.fold (name e).value := by
      rw [key, Name.key, s.mode_of_mem e he]
    rcases List.mem_append.1 hf' with hf' | hf'
    · obtain ⟨hmem, hdiffer⟩ := List.mem_filter.1 hf'
      have hkey_f : key f' = s.mode.fold (name f').value := by
        rw [key, Name.key, s.mode_of_mem f' hmem]
      obtain rfl := s.ascending.eq_of_key hmem he (by rw [hkey_f, hkey_e, hfold])
      rw [hsame] at hdiffer
      cases hdiffer
    · obtain rfl := List.mem_singleton.1 hf'
      exact hkey (by rw [hkey_e, ← hfold, fold])
  · intro h
    have hkept : s.entries.filter (fun e => !(name e).same (name x)) =
        s.entries.filter (fun e => !(name e).same (name x')) := by
      refine List.filter_congr fun e he => congrArg _ (Bool.eq_iff_iff.2 ?_)
      rw [name_same_iff_of_withMode hx he]
      refine ⟨h e he, fun hkey => same_of_fold ?_⟩
      rw [s.mode_of_mem e he]
      rwa [key, Name.key, s.mode_of_mem e he, fold] at hkey
    rw [concatOrReplace, concatOrReplace, hkept]
    exact update_append_congr (hx.trans hx'.symm)

end FunctionCatalog.NamedSet
