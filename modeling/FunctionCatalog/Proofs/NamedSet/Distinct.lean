import FunctionCatalog.Proofs.NamedSet.FiniteMap
import Mathlib.Data.List.Nodup

/-
  FunctionCatalog: entries under names of their own.
  Entries of a mode whose folded names differ make a set of just these entries, in whatever order
  they come (`exists_of_nodup`), and so does a set with further such entries
  (`exists_concatAll_of_nodup`). There is only one set of given entries (`eq_of_perm`).
-/

namespace FunctionCatalog

/-- There is one order by key. -/
theorem AscendingBy.eq_of_perm {α : Type} {key : α → String} {xs ys : List α}
    (hxs : AscendingBy key xs) (hys : AscendingBy key ys) (h : xs.Perm ys) : xs = ys := by
  refine h.eq_of_pairwise (fun a b _ _ hab hba => ?_) hxs hys
  exact absurd (String.lt_trans hab hba) (String.lt_irrefl _)

namespace NamedSet
open Entry

variable {α : Type} [Entry α] {mode : CaseMode} {s t : NamedSet α} {xs es : List α}

/-- Sets of a mode with the same entries have them in one order. -/
theorem eq_of_perm (hmode : s.mode = t.mode) (hentries : s.entries.Perm t.entries)
    (hhandle : s.handle = t.handle) : s = t :=
  eq_of_parts hmode (s.ascending.eq_of_perm t.ascending hentries) hhandle

theorem nodup_keys (s : NamedSet α) : (s.entries.map key).Nodup :=
  List.pairwise_map.2 s.ascending.distinct

theorem clashing_of_nodup (hnodup : ((xs ++ es).map key).Nodup)
    (hself : ∀ e ∈ es, Entry.same e e = true) : clashing xs es = [] := by
  refine List.eq_nil_iff_forall_not_mem.2 fun e he => ?_
  obtain ⟨hmem, x, hx, hkey, hdiffer⟩ := exists_of_mem_clashing he
  obtain rfl := List.inj_on_of_nodup_map hnodup hx (List.mem_append_right xs hmem) hkey
  rw [hself x hmem] at hdiffer
  cases hdiffer

variable [SteadyEntry α] (settings : Settings)

theorem exists_of_nodup (hmode : ∀ e ∈ es, (name e).mode = mode)
    (hself : ∀ e ∈ es, Entry.same e e = true) (hnodup : (es.map key).Nodup) :
    ∃ t, of settings mode es = .ok t ∧ t.mode = mode ∧ t.entries.Perm es ∧ t.handle = .loose := by
  have hnil : AscendingBy key ([] : List α) := List.Pairwise.nil
  obtain ⟨t, htmode, hentries, hloose, hof⟩ := exists_of_append settings hnil hmode hself
  rw [if_pos (clashing_of_nodup hnodup hself)] at hof
  refine ⟨t, hof, htmode, ?_, hloose⟩
  rw [hentries]
  exact sortDistinctBy_perm (List.pairwise_map.1 hnodup)

/-- A set takes in further entries with names of their own as a new set. -/
theorem exists_concatAll_of_nodup (hmode : ∀ e ∈ es, (name e).mode = s.mode)
    (hself : ∀ e ∈ s.entries ++ es, Entry.same e e = true)
    (hnodup : ((s.entries ++ es).map key).Nodup) (hne : es ≠ []) :
    ∃ t, s.concatAll settings es = .ok t ∧ t.mode = s.mode ∧ t.entries.Perm (s.entries ++ es) ∧
      t.handle = .loose := by
  have hclash := clashing_of_nodup hnodup fun e he => hself e (List.mem_append_right _ he)
  obtain ⟨t, ht, hst⟩ := exists_concatAll settings hmode hself hclash
  have hperm : (extended s.entries es).Perm (s.entries ++ es) :=
    foldl_placeBy_perm s.entries (List.pairwise_map.1 hnodup)
  refine ⟨t, ht, hst.mode, by rwa [hst.entries], hst.changed fun hsame => hne ?_⟩
  have hlength := hperm.length_eq
  rw [hsame, List.length_append] at hlength
  exact List.eq_nil_of_length_eq_zero (by omega)

end NamedSet

end FunctionCatalog
