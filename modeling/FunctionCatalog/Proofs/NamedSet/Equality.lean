import FunctionCatalog.Proofs.NamedSet.Distinct
import Mathlib.Data.List.Forall2

/-
  FunctionCatalog: when sets are equal.
  Two lists in the order of their keys have one list of keys if they have the same ones
  (`AscendingBy.map_eq_of_mem_iff`), whatever they were sorted from. So two sets of a mode with the
  same folded names are equal if the entries of each name are (`same_of_keys`).
-/

namespace FunctionCatalog

section Keys

variable {α β : Type} {key : α → String} {xs ys : List α}

theorem ascendingBy_sortDistinctBy (key : α → String) (xs : List α) :
    AscendingBy key (sortDistinctBy key xs) := by
  have hfold : ∀ sorted, AscendingBy key sorted →
      AscendingBy key (xs.foldl (fun sorted x => placeBy key x sorted) sorted) := by
    induction xs with
    | nil => exact fun sorted h => h
    | cons x xs ih => exact fun sorted h => ih _ (ascendingBy_placeBy h)
  exact hfold [] List.Pairwise.nil

/-- What is in order has the keys that it has in one order only. -/
theorem AscendingBy.map_eq_of_mem_iff (hxs : AscendingBy key xs) (hys : AscendingBy key ys)
    (h : ∀ k, k ∈ xs.map key ↔ k ∈ ys.map key) : xs.map key = ys.map key := by
  have hkeys : ∀ {zs : List α}, AscendingBy key zs → AscendingBy id (zs.map key) := fun hzs =>
    List.pairwise_map.2 hzs
  have hnodup : ∀ {zs : List α}, AscendingBy key zs → (zs.map key).Nodup := fun hzs =>
    List.pairwise_map.2 hzs.distinct
  exact (hkeys hxs).eq_of_perm (hkeys hys)
    ((List.perm_ext_iff_of_nodup (hnodup hxs) (hnodup hys)).2 h)

/-- Elements of lists with the same keys that are related by their keys are so one by one. -/
theorem forall₂_of_map_eq {r : α → α → Prop} (h : xs.map key = ys.map key)
    (hr : ∀ x ∈ xs, ∀ y ∈ ys, key x = key y → r x y) : List.Forall₂ r xs ys := by
  induction xs generalizing ys with
  | nil =>
    obtain rfl := List.map_eq_nil_iff.1 h.symm
    exact .nil
  | cons x xs ih =>
    cases ys with
    | nil => cases h
    | cons y ys =>
      obtain ⟨hkey, hrest⟩ := List.cons.inj h
      exact .cons (hr x List.mem_cons_self y List.mem_cons_self hkey)
        (ih hrest fun a ha b hb => hr a (List.mem_cons_of_mem x ha) b (List.mem_cons_of_mem y hb))

end Keys

namespace NamedSet
open Entry

variable {α : Type} [Entry α] {s t : NamedSet α} {es fs : List α}

theorem allSame_iff_forall₂ :
    allSame es fs = true ↔ List.Forall₂ (fun e f => Entry.same e f = true) es fs := by
  induction es generalizing fs with
  | nil =>
    cases fs with
    | nil => exact iff_of_true rfl .nil
    | cons f fs => exact iff_of_false Bool.false_ne_true (by rintro ⟨⟩)
  | cons e es ih =>
    cases fs with
    | nil => exact iff_of_false Bool.false_ne_true (by rintro ⟨⟩)
    | cons f fs => rw [allSame, Bool.and_eq_true, ih, List.forall₂_cons]

/-- Sets of a mode and with the same names are equal if the entries of each name are. -/
theorem same_of_keys (hmode : s.mode = t.mode)
    (hkeys : ∀ k, k ∈ s.entries.map key ↔ k ∈ t.entries.map key)
    (h : ∀ e ∈ s.entries, ∀ f ∈ t.entries, key e = key f → Entry.same e f = true) :
    s.same t = true := by
  have hmap := s.ascending.map_eq_of_mem_iff t.ascending hkeys
  rw [same, hmode, beq_self_eq_true, Bool.true_and, allSame_iff_forall₂]
  exact forall₂_of_map_eq hmap h

end NamedSet

end FunctionCatalog
