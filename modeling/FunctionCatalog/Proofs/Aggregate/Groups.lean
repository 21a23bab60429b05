import FunctionCatalog.Provider.Aggregate
import Mathlib.Data.List.Induction

/-
  FunctionCatalog: groups of one key.
  Adding elements one after another to the groups of their keys gives one group for each key that
  occurs, in the order in which the keys occur first, and every group holds all elements of its key
  in their order.
-/

namespace FunctionCatalog

theorem eraseDups_concat (ks : List String) (k : String) :
    (ks ++ [k]).eraseDups = if k ∈ ks then ks.eraseDups else ks.eraseDups ++ [k] := by
  have hsingle : [k].eraseDups = [k] := rfl
  rw [List.eraseDups_append]
  by_cases hk : k ∈ ks
  · simp [List.removeAll, hk]
  · simp [List.removeAll, hk, hsingle]

theorem nodup_eraseDups (ks : List String) : ks.eraseDups.Nodup := by
  induction ks using List.reverseRecOn with
  | nil => exact .nil
  | append_singleton ks k ih =>
    rw [eraseDups_concat]
    by_cases hk : k ∈ ks
    · rwa [if_pos hk]
    · rw [if_neg hk]
      have hnew : k ∉ ks.eraseDups := mt List.mem_eraseDups.1 hk
      exact List.nodup_append.2 ⟨ih, List.pairwise_singleton _ k, fun j hj i hi heq =>
        hnew (List.mem_singleton.1 hi ▸ heq ▸ hj)⟩

namespace Aggregate

variable {α : Type} {k : String} {x : α} {ks : List String} {key : α → String}

theorem addTo_of_new {groups : List (String × List α)} (h : k ∉ groups.map (·.1)) :
    addTo k x groups = groups ++ [(k, [x])] := by
  induction groups with
  | nil => rfl
  | cons g groups ih =>
    obtain ⟨j, xs⟩ := g
    obtain ⟨hne, hrest⟩ := not_or.1 (mt List.mem_cons.2 h)
    rw [addTo, if_neg (Ne.symm hne), ih hrest]
    rfl

theorem addTo_of_mem {group : String → List α} (hk : k ∈ ks) (hks : ks.Nodup) :
    addTo k x (ks.map (fun j => (j, group j))) =
      ks.map (fun j => (j, if j = k then group j ++ [x] else group j)) := by
  induction ks with
  | nil => cases hk
  | cons j ks ih =>
    obtain ⟨hj, hks⟩ := List.nodup_cons.1 hks
    rw [List.map_cons, List.map_cons, addTo]
    by_cases hjk : j = k
    · have hrest : ks.map (fun i => (i, if i = k then group i ++ [x] else group i)) =
          ks.map (fun i => (i, group i)) :=
        List.map_congr_left fun i hi => by
          have hne : i ≠ k := fun hik => hj (hjk ▸ hik ▸ hi)
          rw [if_neg hne]
      rw [if_pos hjk, if_pos hjk, hrest]
    · have hk' : k ∈ ks := (List.mem_cons.1 hk).resolve_left (Ne.symm hjk)
      rw [if_neg hjk, if_neg hjk, ih hk' hks]

/-- The elements of a key. -/
def groupOf (key : α → String) (xs : List α) (k : String) : List α :=
  xs.filter (fun x => key x = k)

theorem groupOf_concat (xs : List α) (x : α) (k : String) :
    groupOf key (xs ++ [x]) k =
      if k = key x then groupOf key xs k ++ [x] else groupOf key xs k := by
  rw [groupOf, List.filter_append]
  by_cases h : k = key x
  · rw [if_pos h]
    simp [groupOf, h]
  · rw [if_neg h]
    simp [groupOf, Ne.symm h]

/-- The groups are those of the keys that occur. -/
theorem foldl_addTo (key : α → String) (xs : List α) :
    xs.foldl (fun groups x => addTo (key x) x groups) [] =
      (xs.map key).eraseDups.map (fun k => (k, groupOf key xs k)) := by
  induction xs using List.reverseRecOn with
  | nil => rfl
  | append_singleton xs x ih =>
    rw [List.foldl_append, List.foldl_cons, List.foldl_nil, ih, List.map_append, List.map_singleton,
      eraseDups_concat]
    by_cases hx : key x ∈ xs.map key
    · rw [if_pos hx, addTo_of_mem (List.mem_eraseDups.2 hx) (nodup_eraseDups _)]
      exact List.map_congr_left fun k _ => by rw [groupOf_concat]
    · rw [if_neg hx, addTo_of_new (by simpa using hx), List.map_append, List.map_singleton]
      have hempty : groupOf key xs (key x) = [] :=
        List.filter_eq_nil_iff.2 fun y hy => by
          have hne : key y ≠ key x := fun heq => hx (heq ▸ List.mem_map_of_mem hy)
          simpa using hne
      rw [groupOf_concat, if_pos rfl, hempty]
      refine congrArg (· ++ _) (List.map_congr_left fun k hk => ?_)
      have hne : k ≠ key x := by
        rintro rfl
        exact hx (List.mem_eraseDups.1 hk)
      rw [groupOf_concat, if_neg hne]

/-- Where no key occurs twice every element is alone. -/
theorem foldl_addTo_of_nodup {xs : List α} (h : (xs.map key).Nodup) :
    xs.foldl (fun groups x => addTo (key x) x groups) [] = xs.map (fun x => (key x, [x])) := by
  induction xs using List.reverseRecOn with
  | nil => rfl
  | append_singleton xs x ih =>
    rw [List.map_append, List.nodup_append] at h
    obtain ⟨hxs, -, hdisjoint⟩ := h
    have hnew : key x ∉ (xs.map (fun x => (key x, [x]))).map (·.1) := by
      rw [List.map_map]
      intro hx
      exact hdisjoint _ hx _ (List.mem_singleton_self _) rfl
    rw [List.foldl_append, List.foldl_cons, List.foldl_nil, ih hxs, addTo_of_new hnew,
      List.map_append, List.map_singleton]

end Aggregate

end FunctionCatalog
