import FunctionCatalog.Proofs.NamedSet.Distinct

/-
  FunctionCatalog: parts of a set.
  Slices compare folded names with a bound, and by folded names the entries are in order; so a
  bound cuts them in two (`AscendingBy.filter_append`), and what lies between two bounds is a run of
  entries. What is kept and what is not make the set again (`exists_concatAll_parts`).
-/

namespace FunctionCatalog

namespace AscendingBy

variable {α : Type} {key : α → String} {xs : List α}

/-- What is below a bound comes first, then what is not. -/
theorem filter_append (h : AscendingBy key xs) (k : String) :
    xs.filter (fun a => key a < k) ++ xs.filter (fun a => k ≤ key a) = xs := by
  induction xs with
  | nil => rfl
  | cons a as ih =>
    obtain ⟨ha, has⟩ := List.pairwise_cons.1 h
    by_cases hlt : key a < k
    · have hnle : ¬ k ≤ key a := String.not_le.2 hlt
      rw [List.filter_cons, if_pos (decide_eq_true hlt), List.filter_cons,
        if_neg (by rw [decide_eq_true_eq]; exact hnle), List.cons_append, ih has]
    · -- from here on nothing is below the bound
      have hle : ∀ b ∈ a :: as, k ≤ key b := fun b hb => by
        rw [← String.not_lt]
        rcases List.mem_cons.1 hb with rfl | hb
        · exact hlt
        · exact fun hbk => hlt (String.lt_trans (ha b hb) hbk)
      have hhead : (a :: as).filter (fun b => key b < k) = [] :=
        List.filter_eq_nil_iff.2 fun b hb => by
          rw [decide_eq_true_eq, String.not_lt]
          exact hle b hb
      have htail : (a :: as).filter (fun b => k ≤ key b) = a :: as :=
        List.filter_eq_self.2 fun b hb => decide_eq_true (hle b hb)
      rw [hhead, htail, List.nil_append]

/-- What lies between two bounds is a run. -/
theorem isInfix_filter (h : AscendingBy key xs) (low high : String) :
    xs.filter (fun a => low ≤ key a && key a < high) <:+: xs := by
  have hfrom : xs.filter (fun a => low ≤ key a) <:+ xs := ⟨_, h.filter_append low⟩
  have hupper : AscendingBy key (xs.filter (fun a => low ≤ key a)) :=
    List.Pairwise.sublist List.filter_sublist h
  have hbelow : (xs.filter (fun a => low ≤ key a)).filter (fun a => key a < high) <+:
      xs.filter (fun a => low ≤ key a) := ⟨_, hupper.filter_append high⟩
  rw [List.filter_filter] at hbelow
  have hrun := hbelow.isInfix.trans hfrom.isInfix
  simpa only [Bool.and_comm] using hrun

end AscendingBy

namespace NamedSet
open Entry

variable {α : Type} [Entry α] [SteadyEntry α] {s t u : NamedSet α} {p : α → Bool}

/-- A part of a set takes in all other entries, and then it has those of the set. -/
theorem exists_concatAll_parts (settings : Settings)
    (hself : ∀ e ∈ s.entries, Entry.same e e = true) (htmode : t.mode = s.mode)
    (ht : t.entries = s.entries.filter p) (hu : u.entries = s.entries.filter (fun e => !p e)) :
    ∃ v, t.concatAll settings u.entries = .ok v ∧ v.mode = s.mode ∧ v.entries = s.entries := by
  have hperm : (t.entries ++ u.entries).Perm s.entries := by
    rw [ht, hu]
    exact List.filter_append_perm p s.entries
  have hnodup : ((t.entries ++ u.entries).map key).Nodup := (hperm.map key).nodup_iff.2 s.nodup_keys
  have hself' : ∀ e ∈ t.entries ++ u.entries, Entry.same e e = true := fun e he =>
    hself e (hperm.subset he)
  have hmode : ∀ e ∈ u.entries, (name e).mode = t.mode := fun e he => by
    rw [htmode]
    exact s.mode_of_mem e (hperm.subset (List.mem_append_right _ he))
  obtain ⟨v, hv, htv⟩ := exists_concatAll settings hmode hself'
    (clashing_of_nodup hnodup fun e he => hself' e (List.mem_append_right _ he))
  have hplaced : (extended t.entries u.entries).Perm (t.entries ++ u.entries) :=
    foldl_placeBy_perm t.entries (List.pairwise_map.1 hnodup)
  refine ⟨v, hv, htv.mode.trans htmode, v.ascending.eq_of_perm s.ascending ?_⟩
  rw [htv.entries]
  exact hplaced.trans hperm

end NamedSet

end FunctionCatalog
