import FunctionCatalog.Name.Order
import FunctionCatalog.Proofs.Sorting.Permutation
import Mathlib.Data.List.Pairwise

/-
  FunctionCatalog: lists sorted by names.
  Whatever the modes of the names are, sorting loses nothing (`sortOn_perm`). Names of one mode are
  sorted by their folded forms (`pairwise_sortOn`), and what has equal names stays in its order
  (`filter_sortOn`).
-/

namespace FunctionCatalog

open scoped List

variable {α : Type}

/-! ## Order by a text -/

section Texts

variable (text : α → String)

theorem le_on_trans (a b c : α) (hab : decide (text a ≤ text b) = true)
    (hbc : decide (text b ≤ text c) = true) : decide (text a ≤ text c) = true :=
  decide_eq_true (String.le_trans (of_decide_eq_true hab) (of_decide_eq_true hbc))

theorem le_on_total (a b : α) : (decide (text a ≤ text b) || decide (text b ≤ text a)) = true := by
  simpa using String.le_total (text a) (text b)

/-- What is sorted by texts ascends by them. -/
theorem pairwise_mergeSort_on (xs : List α) :
    (xs.mergeSort (fun a b => text a ≤ text b)).Pairwise (fun a b => text a ≤ text b) :=
  (List.pairwise_mergeSort (le_on_trans text) (le_on_total text) xs).imp of_decide_eq_true

/-- Elements of one text stay in their order. -/
theorem filter_mergeSort_on (xs : List α) (t : String) :
    (xs.mergeSort (fun a b => text a ≤ text b)).filter (fun x => text x == t) =
      xs.filter (fun x => text x == t) := by
  have halike : (xs.filter (fun x => text x == t)).Pairwise
      (fun a b => decide (text a ≤ text b) = true) := by
    refine List.pairwise_of_forall_mem_list fun a ha b hb => decide_eq_true ?_
    have ha' : text a = t := beq_iff_eq.1 (List.mem_filter.1 ha).2
    have hb' : text b = t := beq_iff_eq.1 (List.mem_filter.1 hb).2
    exact (ha'.trans hb'.symm) ▸ String.le_refl (text a)
  -- they are in order already, so sorting keeps them as a part of the whole
  have hsub := (List.sublist_mergeSort (le_on_trans text) (le_on_total text) halike
    List.filter_sublist).filter (fun x => text x == t)
  rw [List.filter_eq_self.2 fun a ha => (List.mem_filter.1 ha).2] at hsub
  have hperm := (List.mergeSort_perm xs (fun a b => text a ≤ text b)).filter (fun x => text x == t)
  exact (hsub.eq_of_length hperm.length_eq.symm).symm

end Texts

namespace Name

variable {name : α → Name} {mode : CaseMode} {xs : List α}

theorem sortOn_perm (name : α → Name) (xs : List α) : sortOn name xs ~ xs := by
  unfold sortOn
  split
  · exact List.mergeSort_perm xs _
  · exact Sorting.sortBy_perm _ xs

theorem sortOn_of_mode (h : ∀ x ∈ xs, (name x).mode = mode) :
    sortOn name xs = xs.mergeSort (fun a b => (name a).key ≤ (name b).key) := by
  have hone : haveOneMode (xs.map name) = true := by
    cases xs with
    | nil => rfl
    | cons x xs =>
      simp only [List.map_cons, haveOneMode, List.all_map, List.all_eq_true]
      intro y hy
      simp [h x List.mem_cons_self, h y (List.mem_cons_of_mem x hy)]
  rw [sortOn, if_pos hone]

/-- Names of one mode are sorted by their folded forms. -/
theorem pairwise_sortOn (h : ∀ x ∈ xs, (name x).mode = mode) :
    (sortOn name xs).Pairwise
      (fun a b => mode.fold (name a).value ≤ mode.fold (name b).value) := by
  have hkey : ∀ x ∈ xs, (name x).key = mode.fold (name x).value := by
    intro x hx
    rw [key, h x hx]
  have hperm := sortOn_perm name xs
  rw [sortOn_of_mode h] at hperm ⊢
  refine (pairwise_mergeSort_on (fun x => (name x).key) xs).imp_of_mem ?_
  intro a b ha hb hab
  rwa [← hkey a (hperm.subset ha), ← hkey b (hperm.subset hb)]

/-- What has equal names stays in its order. -/
theorem filter_sortOn (h : ∀ x ∈ xs, (name x).mode = mode) (k : String) :
    (sortOn name xs).filter (fun x => (name x).key == k) =
      xs.filter (fun x => (name x).key == k) := by
  rw [sortOn_of_mode h]
  exact filter_mergeSort_on (fun x => (name x).key) xs k

theorem sortOn_pair {a b : α} (hmode : (name b).mode = (name a).mode)
    (hle : (name a).key ≤ (name b).key) : sortOn name [a, b] = [a, b] := by
  have hone : haveOneMode ([a, b].map name) = true := by
    simp [haveOneMode, hmode]
  rw [sortOn, if_pos hone]
  exact List.mergeSort_of_pairwise (List.pairwise_pair.2 (decide_eq_true hle))

end Name

end FunctionCatalog
