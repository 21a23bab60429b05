import FunctionCatalog.Proofs.Value.Simple
import FunctionCatalog.Value.Settle

/-
  FunctionCatalog: which numbers objects get.
  Numbering a value goes through its parts and never goes back to a number that was handed out
  before (`Value.le_settle`). A function that has a number keeps it and any other one gets a number
  that was just handed out (`NamedFunction.settles_settle`). So objects that were told apart by their
  numbers still are when another one is made (`Handle.Apart.cons`).
-/

namespace FunctionCatalog

/-! ## The supply of numbers -/

theorem Handle.le_settle (h : Handle) (next : Nat) : next ≤ (h.settle.run next).2 := by
  cases h with
  | loose => exact Nat.le_succ next
  | object n => exact Nat.le_refl next

theorem Binary64.le_settle (x : Binary64) (next : Nat) : next ≤ (x.settle.run next).2 := by
  unfold settle
  split
  · exact Nat.le_succ next
  · exact Nat.le_refl next

theorem Name.le_settle (n : Name) (next : Nat) : next ≤ (n.settle.run next).2 :=
  n.handle.le_settle next

theorem Info.le_settle (i : Info) (next : Nat) : next ≤ (i.settle.run next).2 :=
  Nat.le_trans (i.name.le_settle next) (i.handle.le_settle _)

theorem Selector.le_settle (s : Selector) (next : Nat) : next ≤ (s.settle.run next).2 :=
  Nat.le_trans (s.name.le_settle next) (s.handle.le_settle _)

theorem Alias.le_settle (a : Alias) (next : Nat) : next ≤ (a.settle.run next).2 := by
  have hown := Nat.le_trans (a.name.handle.le_settle next) (a.handle.le_settle _)
  obtain ⟨name, target, token, hfits, handle⟩ := a
  cases target with
  | none => exact hown
  | some s =>
    exact Nat.le_trans (Nat.le_trans hown (s.name.handle.le_settle _)) (s.handle.le_settle _)

mutual

theorem Value.le_settle (v : Value) (next : Nat) : next ≤ (v.settle.run next).2 := by
  cases v with
  | double x => exact x.le_settle next
  | list vs => exact Value.le_settleAll vs next
  | tuple vs => exact Value.le_settleAll vs next
  | record ks vs => exact Nat.le_trans (Value.le_settleAll ks next) (Value.le_settleAll vs _)
  | name n => exact n.le_settle next
  | item i => exact Item.le_settle i next
  | set kind mode es h => exact Nat.le_trans (Item.le_settleAll es next) (h.le_settle _)
  | _ => exact Nat.le_refl next

theorem Value.le_settleAll (vs : List Value) (next : Nat) :
    next ≤ ((Value.settleAll vs).run next).2 := by
  cases vs with
  | nil => exact Nat.le_refl next
  | cons v vs => exact Nat.le_trans (Value.le_settle v next) (Value.le_settleAll vs _)

theorem Item.le_settle (i : Item) (next : Nat) : next ≤ (i.settle.run next).2 := by
  cases i with
  | info i => exact i.le_settle next
  | infoWith n t h =>
    exact Nat.le_trans (Nat.le_trans (n.le_settle next) (Value.le_settle t _)) (h.le_settle _)
  | selector s => exact s.le_settle next
  | «alias» a => exact a.le_settle next
  | aliasWith n s t h =>
    exact Nat.le_trans
      (Nat.le_trans (Nat.le_trans (n.le_settle next) (s.le_settle _)) (Value.le_settle t _))
      (h.le_settle _)
  | function f => exact NamedFunction.le_settle f next

theorem Item.le_settleAll (is : List Item) (next : Nat) :
    next ≤ ((Item.settleAll is).run next).2 := by
  cases is with
  | nil => exact Nat.le_refl next
  | cons i is => exact Nat.le_trans (Item.le_settle i next) (Item.le_settleAll is _)

theorem NamedFunction.le_settle (f : NamedFunction) (next : Nat) :
    next ≤ (f.settle.run next).2 := by
  obtain ⟨n, o, vs, h⟩ := f
  exact Nat.le_trans (Nat.le_trans (n.le_settle next) (Value.le_settleAll vs _)) (h.le_settle _)

end

/-- There is nothing to number in simple values. -/
theorem Value.settleAll_of_isSimple {vs : List Value} (hvs : ∀ v ∈ vs, v.isSimple = true)
    (next : Nat) : ((Value.settleAll vs).run next).1 = vs := by
  have hone : ∀ v : Value, v.isSimple = true → ∀ next, (v.settle.run next).1 = v := by
    intro v hv next
    cases v with
    | double x =>
      have hx : x ≠ .nan 0 := by
        rintro rfl
        simp [isSimple, Binary64.isNaN_nan] at hv
      show Value.double (x.settle.run next).1 = .double x
      rw [Binary64.settle, if_neg hx]
      rfl
    | null | bool | int | text | mode => rfl
    | _ => cases hv
  induction vs generalizing next with
  | nil => rfl
  | cons v vs ih =>
    rw [List.forall_mem_cons] at hvs
    show (v.settle.run next).1 :: ((Value.settleAll vs).run _).1 = v :: vs
    rw [hone v hvs.1, ih hvs.2]

/-! ## Handles -/

/-- What becomes of a handle while the numbers from `low` to below `high` are handed out: a number
stays, and what is loose gets one of these. -/
inductive Handle.Settles (low high : Nat) : Handle → Handle → Prop
  | stays (n : Nat) : Settles low high (.object n) (.object n)
  | given {n : Nat} (hlow : low ≤ n) (hhigh : n < high) : Settles low high .loose (.object n)

theorem Handle.Settles.exists_number {low high : Nat} {h k : Handle} (hs : Settles low high h k) :
    ∃ n, k = .object n := by
  cases hs <;> exact ⟨_, rfl⟩

theorem Handle.settles_settle (h : Handle) {low next : Nat} (hlow : low ≤ next) :
    Settles low (h.settle.run next).2 h (h.settle.run next).1 := by
  cases h with
  | loose => exact .given hlow (Nat.lt_succ_self next)
  | object n => exact .stays n

theorem NamedFunction.settles_settle (f : NamedFunction) (next : Nat) :
    Handle.Settles next (f.settle.run next).2 f.handle (f.settle.run next).1.handle := by
  obtain ⟨n, o, vs, h⟩ := f
  exact h.settles_settle (Nat.le_trans (n.le_settle next) (Value.le_settleAll vs _))

/-! ## Objects that are apart -/

/-- Objects with a label each have numbers below `next`, and a number has one label. -/
structure Handle.Apart (next : Nat) (objects : List (String × Handle)) : Prop where
  below : ∀ x ∈ objects, ∀ n, x.2 = .object n → n < next
  label : ∀ x ∈ objects, ∀ y ∈ objects, x.2.same y.2 = true → x.1 = y.1

namespace Handle.Apart

variable {next next' : Nat} {xs ys : List (String × Handle)}

/-- Objects that come with labels which only depend on the old ones are apart, too. -/
theorem relabel (h : Apart next xs) (label : String → String)
    (hys : ∀ y ∈ ys, y.2 = .loose ∨ ∃ x ∈ xs, y = (label x.1, x.2)) : Apart next ys where
  below y hy n hn := by
    rcases hys y hy with hloose | ⟨x, hx, rfl⟩
    · rw [hloose] at hn
      cases hn
    · exact h.below x hx n hn
  label y hy z hz hsame := by
    rcases hys y hy with hloose | ⟨x, hx, rfl⟩
    · rw [hloose] at hsame
      cases hsame
    · rcases hys z hz with hloose | ⟨w, hw, rfl⟩
      · rw [eq_of_same hsame, hloose] at hsame
        cases hsame
      · exact congrArg label (h.label x hx w hw hsame)

theorem mono (h : Apart next xs) (hle : next ≤ next') : Apart next' xs :=
  ⟨fun x hx n hn => Nat.lt_of_lt_of_le (h.below x hx n hn) hle, h.label⟩

/-- An object may be added that is one of them or has just been made. -/
theorem cons (h : Apart next xs) (hle : next ≤ next') {label : String} {k k' : Handle}
    (hk : k = .loose ∨ (label, k) ∈ xs) (hs : Settles next next' k k') :
    Apart next' ((label, k') :: xs) := by
  cases hs with
  | stays n =>
    have hmem : (label, Handle.object n) ∈ xs := hk.resolve_left (by simp)
    refine (h.mono hle).relabel id fun y hy => .inr ?_
    rcases List.mem_cons.1 hy with rfl | hy
    · exact ⟨_, hmem, rfl⟩
    · exact ⟨y, hy, rfl⟩
  | @given n hlow hhigh =>
    -- No older object has the new number.
    have hnew : ∀ y ∈ xs, y.2 ≠ .object n := fun y hy hn =>
      absurd (h.below y hy n hn) (Nat.not_lt.2 hlow)
    refine ⟨fun y hy m hm => ?_, fun y hy z hz hsame => ?_⟩
    · rcases List.mem_cons.1 hy with rfl | hy
      · cases hm
        exact hhigh
      · exact (h.mono hle).below y hy m hm
    · have heq := eq_of_same hsame
      rcases List.mem_cons.1 hy with rfl | hy <;> rcases List.mem_cons.1 hz with rfl | hz
      · rfl
      · exact absurd heq.symm (hnew z hz)
      · exact absurd heq (hnew y hy)
      · exact h.label y hy z hz hsame

end Handle.Apart

end FunctionCatalog
