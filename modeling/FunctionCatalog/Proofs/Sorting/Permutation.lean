import FunctionCatalog.Proofs.Outcome
import FunctionCatalog.Sorting.Runs

/-
  FunctionCatalog: sorting loses nothing.
  Whatever the comparison answers, order or not, what comes out holds the same elements.
-/

namespace FunctionCatalog.Sorting

open scoped List

variable {α ε : Type} {less wins : α → α → Except ε Bool}

/-! ## Runs -/

theorem append_of_takeRun {x : α} {ys run rest : List α}
    (h : takeRun less x ys = .ok (run, rest)) : run ++ rest = x :: ys := by
  induction ys generalizing x run with
  | nil =>
    cases h
    rfl
  | cons y ys ih =>
    obtain ⟨b, -, h⟩ := exists_of_bind_ok h
    cases b with
    | false =>
      cases h
      rfl
    | true =>
      obtain ⟨⟨run', rest'⟩, hrun, h⟩ := exists_of_bind_ok h
      cases h
      rw [List.cons_append, ih hrun]

theorem perm_of_firstRun {xs run rest : List α} (h : firstRun less xs = .ok (run, rest)) :
    run ++ rest ~ xs := by
  match xs with
  | [] =>
    cases h
    exact .refl _
  | [x] =>
    cases h
    exact .refl _
  | x :: y :: ys =>
    obtain ⟨b, -, h⟩ := exists_of_bind_ok h
    cases b with
    | false =>
      obtain ⟨⟨run', rest'⟩, hrun, h⟩ := exists_of_bind_ok h
      cases h
      rw [List.cons_append, append_of_takeRun hrun]
    | true =>
      obtain ⟨⟨run', rest'⟩, hrun, h⟩ := exists_of_bind_ok h
      cases h
      refine ((List.reverse_perm _).append_right _).trans ?_
      rw [List.cons_append, append_of_takeRun hrun]

theorem perm_of_insertSorted {x : α} {sorted ys : List α}
    (h : insertSorted less sorted x = .ok ys) : ys ~ x :: sorted := by
  obtain ⟨i, -, h⟩ := exists_of_bind_ok h
  cases h
  have hsplit : sorted.take i ++ sorted.drop i = sorted := List.take_append_drop i sorted
  exact List.perm_middle.trans (.cons x (.of_eq hsplit))

theorem perm_of_foldlM_insertSorted {xs sorted ys : List α}
    (h : xs.foldlM (insertSorted less) sorted = .ok ys) : ys ~ sorted ++ xs := by
  induction xs generalizing sorted with
  | nil =>
    cases h
    rw [List.append_nil]
  | cons x xs ih =>
    rw [List.foldlM_cons] at h
    obtain ⟨more, hmore, h⟩ := exists_of_bind_ok h
    calc ys ~ more ++ xs := ih h
      _ ~ x :: sorted ++ xs := (perm_of_insertSorted hmore).append_right xs
      _ ~ sorted ++ x :: xs := List.perm_middle.symm

theorem perm_of_nextRun {fill : Nat} {xs run rest : List α}
    (h : nextRun less fill xs = .ok (run, rest)) : run ++ rest ~ xs := by
  obtain ⟨⟨first, later⟩, hfirst, h⟩ := exists_of_bind_ok h
  obtain ⟨filled, hfilled, h⟩ := exists_of_bind_ok h
  cases h
  refine ((perm_of_foldlM_insertSorted hfilled).append_right _).trans ?_
  rw [List.append_assoc, List.take_append_drop]
  exact perm_of_firstRun hfirst

/-! A run is never empty, so that every run makes the rest shorter. -/

theorem length_pos_of_firstRun {x : α} {xs run rest : List α}
    (h : firstRun less (x :: xs) = .ok (run, rest)) : 0 < run.length := by
  cases xs with
  | nil =>
    cases h
    exact Nat.one_pos
  | cons y ys =>
    obtain ⟨b, -, h⟩ := exists_of_bind_ok h
    cases b with
    | false =>
      obtain ⟨⟨run', rest'⟩, -, h⟩ := exists_of_bind_ok h
      cases h
      exact Nat.succ_pos _
    | true =>
      obtain ⟨⟨run', rest'⟩, -, h⟩ := exists_of_bind_ok h
      cases h
      simp

theorem length_pos_of_nextRun {fill : Nat} {x : α} {xs run rest : List α}
    (h : nextRun less fill (x :: xs) = .ok (run, rest)) : 0 < run.length := by
  obtain ⟨⟨first, later⟩, hfirst, h⟩ := exists_of_bind_ok h
  obtain ⟨filled, hfilled, h⟩ := exists_of_bind_ok h
  cases h
  have hlength := (perm_of_foldlM_insertSorted hfilled).length_eq
  have hpos := length_pos_of_firstRun hfirst
  rw [List.length_append] at hlength
  omega

theorem length_rest_of_nextRun {fill : Nat} {x : α} {xs run rest : List α}
    (h : nextRun less fill (x :: xs) = .ok (run, rest)) : rest.length ≤ xs.length := by
  have hlength := (perm_of_nextRun h).length_eq
  have hpos := length_pos_of_nextRun h
  simp only [List.length_append, List.length_cons] at hlength
  omega

/-! ## Merges -/

namespace Merge

/-- What a merge holds in any order. -/
theorem all_perm (m : Merge α) : m.all ~ m.out ++ (m.left ++ m.right) := by
  rw [all, List.append_assoc]
  exact (List.reverse_perm m.out).append_right _

theorem rightFirst_perm (m : Merge α) : m.rightFirst ~ m.all := by
  rw [rightFirst, all, List.append_assoc, List.append_assoc]
  exact List.perm_append_comm.append_left _

/-- What has come out from the left. -/
theorem all_perm_of_left {out left left' right taken : List α} (h : taken ++ left' ~ left) :
    (⟨taken ++ out, left', right⟩ : Merge α).all ~ (⟨out, left, right⟩ : Merge α).all := by
  refine (all_perm _).trans (.trans ?_ (all_perm _).symm)
  calc taken ++ out ++ (left' ++ right)
    _ ~ out ++ (taken ++ (left' ++ right)) := by
      rw [List.append_assoc]
      exact List.perm_append_comm_assoc taken out _
    _ ~ out ++ (left ++ right) := by
      rw [← List.append_assoc taken]
      exact .append_left out (h.append_right right)

/-- What has come out from the right. -/
theorem all_perm_of_right {out left right right' taken : List α} (h : taken ++ right' ~ right) :
    (⟨taken ++ out, left, right'⟩ : Merge α).all ~ (⟨out, left, right⟩ : Merge α).all := by
  refine (all_perm _).trans (.trans ?_ (all_perm _).symm)
  calc taken ++ out ++ (left ++ right')
    _ ~ out ++ (left ++ (taken ++ right')) := by
      rw [List.append_assoc]
      refine (List.perm_append_comm_assoc taken out _).trans (.append_left out ?_)
      exact List.perm_append_comm_assoc taken left right'
    _ ~ out ++ (left ++ right) := .append_left out (.append_left left h)

theorem reverse_take_perm (k : Nat) (xs : List α) : (xs.take k).reverse ++ xs.drop k ~ xs := by
  refine ((List.reverse_perm _).append_right _).trans (.of_eq ?_)
  exact List.take_append_drop k xs

/-- What there is after some progress. -/
def Progress.held : Progress α → List α
  | .done xs => xs
  | .more m _ => m.all

theorem perm_of_leapLeft {back : Bool} {m : Merge α} {p : Progress α}
    (h : leapLeft back wins m = .ok p) : p.held ~ m.all := by
  obtain ⟨out, left, right⟩ := m
  cases right with
  | nil =>
    cases h
    exact .refl _
  | cons r right =>
    obtain ⟨k, -, h⟩ := exists_of_bind_ok h
    have htaken : (⟨(left.take k).reverse ++ out, left.drop k, r :: right⟩ : Merge α).all ~
        (⟨out, left, r :: right⟩ : Merge α).all :=
      all_perm_of_left (reverse_take_perm k left)
    have hone : (⟨[r] ++ ((left.take k).reverse ++ out), left.drop k, right⟩ : Merge α).all ~
        (⟨out, left, r :: right⟩ : Merge α).all :=
      (all_perm_of_right (.refl _)).trans htaken
    dsimp only at h
    split at h
    · cases h
      exact htaken
    · cases h
      exact (rightFirst_perm _).trans htaken
    · cases h
      exact hone
    · cases h
      exact hone

theorem perm_of_leapRight {back : Bool} {m : Merge α} {p : Progress α}
    (h : leapRight back wins m = .ok p) : p.held ~ m.all := by
  obtain ⟨out, left, right⟩ := m
  cases left with
  | nil =>
    cases h
    exact .refl _
  | cons l left =>
    obtain ⟨k, -, h⟩ := exists_of_bind_ok h
    have htaken : (⟨(right.take k).reverse ++ out, l :: left, right.drop k⟩ : Merge α).all ~
        (⟨out, l :: left, right⟩ : Merge α).all :=
      all_perm_of_right (reverse_take_perm k right)
    have hone : (⟨[l] ++ ((right.take k).reverse ++ out), left, right.drop k⟩ : Merge α).all ~
        (⟨out, l :: left, right⟩ : Merge α).all :=
      (all_perm_of_left (.refl _)).trans htaken
    dsimp only at h
    split at h
    · cases h
      exact htaken
    · cases h
      exact (rightFirst_perm _).trans hone
    · cases h
      exact hone

/-- Two leaps, one after the other. -/
theorem perm_of_two_leaps {one two : Merge α → Except ε (Progress α)} {m : Merge α} {p : Progress α}
    {j : Nat} (hone : ∀ {n q}, one n = .ok q → q.held ~ n.all)
    (htwo : ∀ {n q}, two n = .ok q → q.held ~ n.all)
    (h : (do
      match ← one m with
      | .done xs => .ok (.done xs, 0)
      | .more m k => do
        match ← two m with
        | .done xs => .ok (.done xs, 0)
        | .more m j => .ok (.more m k, j) : Except ε (Progress α × Nat)) = .ok (p, j)) :
    p.held ~ m.all := by
  obtain ⟨q, hq, h⟩ := exists_of_bind_ok h
  cases q with
  | done xs =>
    cases h
    exact hone hq
  | more n k =>
    obtain ⟨q', hq', h⟩ := exists_of_bind_ok h
    refine .trans ?_ (hone hq)
    cases q' with
    | done xs =>
      cases h
      exact htwo hq'
    | more n' j' =>
      cases h
      show n'.all ~ n.all
      exact htwo hq'

theorem perm_of_leapBoth {back : Bool} {m : Merge α} {p : Progress α} {j : Nat}
    (h : leapBoth back wins m = .ok (p, j)) : p.held ~ m.all := by
  cases back with
  | false => exact perm_of_two_leaps perm_of_leapLeft perm_of_leapRight h
  | true => exact perm_of_two_leaps perm_of_leapRight perm_of_leapLeft h

/-- A step keeps all elements if what follows it does. -/
theorem perm_of_step {back : Bool} {budget : Nat}
    (hstep : ∀ {m : Merge α} {limit : Nat} {counts : Nat × Nat} {r : List α × Nat},
      step back wins budget m limit counts = .ok r → r.1 ~ m.all)
    (hleaps : ∀ {m : Merge α} {limit : Nat} {r : List α × Nat},
      leaps back wins budget m limit = .ok r → r.1 ~ m.all)
    {m : Merge α} {limit : Nat} {counts : Nat × Nat} {r : List α × Nat}
    (h : step back wins (budget + 1) m limit counts = .ok r) : r.1 ~ m.all := by
  obtain ⟨out, left, right⟩ := m
  obtain ⟨lefts, rights⟩ := counts
  unfold step at h
  dsimp only at h
  split at h
  · next l left r' right =>
    obtain ⟨b, -, h⟩ := exists_of_bind_ok h
    have hl : (⟨[l] ++ out, left, r' :: right⟩ : Merge α).all ~
        (⟨out, l :: left, r' :: right⟩ : Merge α).all := all_perm_of_left (.refl _)
    have hr : (⟨[r'] ++ out, l :: left, right⟩ : Merge α).all ~
        (⟨out, l :: left, r' :: right⟩ : Merge α).all := all_perm_of_right (.refl _)
    cases b with
    | true =>
      simp only [if_true] at h
      split at h
      · cases h
        exact hr
      · split at h
        · exact (hleaps h).trans hr
        · exact (hstep h).trans hr
    | false =>
      simp only [Bool.false_eq_true, if_false] at h
      split at h
      · cases h
        exact (rightFirst_perm _).trans hl
      · split at h
        · exact (hleaps h).trans hl
        · exact (hstep h).trans hl
  · cases h
    exact .refl _

/-- So do leaps. -/
theorem perm_of_leaps {back : Bool} {budget : Nat}
    (hstep : ∀ {m : Merge α} {limit : Nat} {counts : Nat × Nat} {r : List α × Nat},
      step back wins budget m limit counts = .ok r → r.1 ~ m.all)
    (hleaps : ∀ {m : Merge α} {limit : Nat} {r : List α × Nat},
      leaps back wins budget m limit = .ok r → r.1 ~ m.all)
    {m : Merge α} {limit : Nat} {r : List α × Nat}
    (h : leaps back wins (budget + 1) m limit = .ok r) : r.1 ~ m.all := by
  unfold leaps at h
  obtain ⟨⟨p, j⟩, hp, h⟩ := exists_of_bind_ok h
  refine .trans ?_ (perm_of_leapBoth hp)
  cases p with
  | done xs =>
    cases h
    exact .refl _
  | more m' k =>
    dsimp only at h
    split at h
    · exact hleaps h
    · exact hstep h

/-- Both ways of going on, by the number of steps that are left. -/
theorem perm_of_step_leaps (back : Bool) (budget : Nat) :
    (∀ {m : Merge α} {limit : Nat} {counts : Nat × Nat} {r : List α × Nat},
      step back wins budget m limit counts = .ok r → r.1 ~ m.all) ∧
    (∀ {m : Merge α} {limit : Nat} {r : List α × Nat},
      leaps back wins budget m limit = .ok r → r.1 ~ m.all) := by
  induction budget with
  | zero =>
    constructor
    · intro m limit counts r h
      cases h
      exact .refl _
    · intro m limit r h
      cases h
      exact .refl _
  | succ budget ih =>
    obtain ⟨hstep, hleaps⟩ := ih
    exact ⟨perm_of_step hstep hleaps, perm_of_leaps hstep hleaps⟩

theorem perm_of_start {back : Bool} {left right : List α} {limit : Nat} {r : List α × Nat}
    (h : start back wins left right limit = .ok r) : r.1 ~ left ++ right := by
  cases right with
  | nil =>
    cases h
    rw [List.append_nil]
  | cons x right =>
    have hall : (⟨[x] ++ [], left, right⟩ : Merge α).all ~ left ++ x :: right :=
      (all_perm_of_right (.refl _)).trans (.refl _)
    unfold start at h
    dsimp only at h
    split at h
    · cases h
      exact hall
    · split at h
      · cases h
        exact (rightFirst_perm _).trans hall
      · exact ((perm_of_step_leaps back _).1 h).trans hall

end Merge

theorem perm_of_middle {xs ys merged : List α} {k j : Nat}
    (h : merged ~ xs.drop k ++ ys.take j) : xs.take k ++ merged ++ ys.drop j ~ xs ++ ys := by
  calc xs.take k ++ merged ++ ys.drop j
    _ ~ xs.take k ++ (xs.drop k ++ ys.take j) ++ ys.drop j := (h.append_left _).append_right _
    _ ~ xs ++ ys := by
      rw [← List.append_assoc, List.take_append_drop, List.append_assoc, List.take_append_drop]

theorem perm_of_mergeRuns {limit : Nat} {xs ys : List α} {r : List α × Nat}
    (h : mergeRuns less limit xs ys = .ok r) : r.1 ~ xs ++ ys := by
  unfold mergeRuns at h
  split at h
  · cases h
    rw [List.append_nil]
  · obtain ⟨k, -, h⟩ := exists_of_bind_ok h
    dsimp only at h
    split at h
    · cases h
      exact .refl _
    · obtain ⟨tail, -, h⟩ := exists_of_bind_ok h
      split at h
      · next hempty =>
        cases h
        refine perm_of_middle ?_
        rw [List.isEmpty_iff.1 hempty, List.append_nil]
      · split at h
        · obtain ⟨⟨merged, limit'⟩, hmerged, h⟩ := exists_of_bind_ok h
          cases h
          exact perm_of_middle (Merge.perm_of_start hmerged)
        · obtain ⟨⟨merged, limit'⟩, hmerged, h⟩ := exists_of_bind_ok h
          cases h
          refine perm_of_middle ((List.reverse_perm _).trans ?_)
          refine (Merge.perm_of_start hmerged).trans ?_
          exact ((List.reverse_perm _).append (List.reverse_perm _)).trans List.perm_append_comm

/-! ## All runs -/

/-- Everything in the runs that wait for their merges. -/
def held (stack : List (Pending α)) : List α :=
  stack.reverse.flatMap (·.run)

theorem held_cons (p : Pending α) (stack : List (Pending α)) :
    held (p :: stack) = held stack ++ p.run := by
  simp [held]

theorem held_merged {last before : Pending α} {rest : List (Pending α)} {run : List α}
    {power : Nat} (h : run ~ before.run ++ last.run) :
    held (⟨run, power⟩ :: rest) ~ held (last :: before :: rest) := by
  rw [held_cons, held_cons, held_cons, List.append_assoc]
  exact .append_left _ h

theorem perm_of_collapse {power : Nat} {stack : List (Pending α)} {limit : Nat}
    {r : List (Pending α) × Nat} (h : collapse less power stack limit = .ok r) :
    held r.1 ~ held stack := by
  induction stack, limit using collapse.induct power with
  | case1 last before rest limit hlt ih =>
    rw [collapse, if_pos hlt] at h
    obtain ⟨⟨run, limit'⟩, hrun, h⟩ := exists_of_bind_ok h
    exact (ih run limit' h).trans (held_merged (perm_of_mergeRuns hrun))
  | case2 last before rest limit hlt =>
    rw [collapse, if_neg hlt] at h
    cases h
    exact .refl _
  | case3 stack limit hshort =>
    rw [collapse.eq_2 _ _ _ _ hshort] at h
    cases h
    exact .refl _

theorem perm_of_push {n : Nat} {run : List α} {stack : List (Pending α)} {limit : Nat}
    {r : List (Pending α) × Nat} (h : push less n run stack limit = .ok r) :
    held r.1 ~ held stack ++ run := by
  unfold push at h
  split at h
  · cases h
    rw [held_cons]
  · next last rest =>
    dsimp only at h
    obtain ⟨⟨collapsed, limit'⟩, hcollapse, h⟩ := exists_of_bind_ok h
    have hperm := perm_of_collapse hcollapse
    dsimp only at h hperm
    cases collapsed with
    | nil =>
      cases h
      rw [held_cons]
      exact hperm.append_right run
    | cons last' rest' =>
      cases h
      rw [held_cons, held_cons]
      rw [held_cons] at hperm
      exact hperm.append_right run

theorem perm_of_finish {budget : Nat} {stack : List (Pending α)} {limit : Nat} {xs : List α}
    (h : finish less budget stack limit = .ok xs) : xs ~ held stack := by
  induction budget, stack, limit using finish.induct with
  | case1 budget limit =>
    rw [finish] at h
    cases h
    exact .refl _
  | case2 budget one limit =>
    rw [finish] at h
    cases h
    exact .of_eq (List.append_nil _).symm
  | case3 stack limit hnil hone =>
    rw [finish.eq_3 _ _ _ hnil hone] at h
    cases h
    exact .refl _
  | case4 budget last before earlier rest limit hlt ih =>
    rw [finish, if_pos hlt] at h
    obtain ⟨⟨run, limit'⟩, hrun, h⟩ := exists_of_bind_ok h
    refine (ih run limit' h).trans ?_
    rw [held_cons last, held_cons last]
    exact (held_merged (perm_of_mergeRuns hrun)).append_right last.run
  | case5 budget last before earlier rest limit hlt ih =>
    rw [finish, if_neg hlt] at h
    obtain ⟨⟨run, limit'⟩, hrun, h⟩ := exists_of_bind_ok h
    exact (ih run limit' h).trans (held_merged (perm_of_mergeRuns hrun))
  | case6 budget last before limit =>
    rw [finish] at h
    obtain ⟨⟨run, limit'⟩, hrun, h⟩ := exists_of_bind_ok h
    cases h
    exact (perm_of_mergeRuns hrun).trans (.of_eq (by simp [held]))

theorem perm_of_pushAll {n budget : Nat} {xs : List α} {stack : List (Pending α)} {limit : Nat}
    {r : List (Pending α) × Nat} (hbudget : xs.length ≤ budget)
    (h : pushAll less n budget xs stack limit = .ok r) : held r.1 ~ held stack ++ xs := by
  induction budget generalizing xs stack limit with
  | zero =>
    obtain rfl := List.length_eq_zero_iff.1 (Nat.le_zero.1 hbudget)
    rw [pushAll] at h
    cases h
    rw [List.append_nil]
  | succ budget ih =>
    cases xs with
    | nil =>
      rw [pushAll] at h
      cases h
      rw [List.append_nil]
    | cons x xs =>
      rw [pushAll.eq_3 _ _ _ _ _ _ (by simp)] at h
      obtain ⟨⟨run, rest⟩, hrun, h⟩ := exists_of_bind_ok h
      obtain ⟨⟨stack', limit'⟩, hpush, h⟩ := exists_of_bind_ok h
      have hrest : rest.length ≤ budget :=
        Nat.le_trans (length_rest_of_nextRun hrun) (Nat.le_of_succ_le_succ hbudget)
      calc held r.1 ~ held stack' ++ rest := ih hrest h
        _ ~ held stack ++ run ++ rest := (perm_of_push hpush).append_right rest
        _ ~ held stack ++ x :: xs := by
          rw [List.append_assoc]
          exact .append_left _ (perm_of_nextRun hrun)

theorem perm_of_sortM {xs ys : List α} (h : sortM less xs = .ok ys) : ys ~ xs := by
  unfold sortM at h
  split at h
  · cases h
    exact .refl _
  · obtain ⟨⟨stack, limit⟩, hstack, h⟩ := exists_of_bind_ok h
    exact (perm_of_finish h).trans (perm_of_pushAll (Nat.le_refl _) hstack)

/-- Sorting only changes the order. -/
theorem sortBy_perm (less : α → α → Bool) (xs : List α) : sortBy less xs ~ xs := by
  unfold sortBy
  split
  next sorted h => exact perm_of_sortM h

end FunctionCatalog.Sorting
