/-
  FunctionCatalog: order by a text key.
  `placeBy` keeps a list strictly ascending by a text key, and `sortDistinctBy` makes one so.
-/

namespace FunctionCatalog

/-- Puts `x` in its place among elements ascending by key, unless its key is taken. -/
def placeBy {α : Type} (key : α → String) (x : α) : List α → List α
  | [] => [x]
  | a :: as =>
    if key x < key a then x :: a :: as
    else if key x = key a then a :: as
    else a :: placeBy key x as

/-- The elements ascending by key, the first of each key. -/
def sortDistinctBy {α : Type} (key : α → String) (xs : List α) : List α :=
  xs.foldl (fun sorted x => placeBy key x sorted) []

/-- Strictly ascending by key. -/
def AscendingBy {α : Type} (key : α → String) (xs : List α) : Prop :=
  xs.Pairwise (fun a b => key a < key b)

theorem mem_placeBy {α : Type} {key : α → String} {x y : α} {xs : List α}
    (h : y ∈ placeBy key x xs) : y = x ∨ y ∈ xs := by
  induction xs with
  | nil => simpa [placeBy] using h
  | cons a as ih =>
    rw [placeBy] at h
    split at h
    · simpa using h
    · split at h
      · exact Or.inr h
      · rcases List.mem_cons.1 h with rfl | h
        · exact Or.inr (List.mem_cons_self)
        · exact (ih h).imp_right (List.mem_cons_of_mem _)

theorem ascendingBy_placeBy {α : Type} {key : α → String} {x : α} {xs : List α}
    (h : AscendingBy key xs) : AscendingBy key (placeBy key x xs) := by
  induction xs with
  | nil => simp [placeBy, AscendingBy]
  | cons a as ih =>
    obtain ⟨ha, has⟩ := List.pairwise_cons.1 h
    rw [placeBy]
    split
    · next hlt =>
      refine List.pairwise_cons.2 ⟨?_, h⟩
      intro b hb
      rcases List.mem_cons.1 hb with rfl | hb
      · exact hlt
      · exact String.lt_trans hlt (ha b hb)
    · next hnlt =>
      split
      · exact h
      · next hne =>
        refine List.pairwise_cons.2 ⟨?_, ih has⟩
        intro b hb
        rcases mem_placeBy hb with rfl | hb
        · rcases Std.lt_trichotomy (key b) (key a) with hlt | heq | hgt
          · exact absurd hlt hnlt
          · exact absurd heq hne
          · exact hgt
        · exact ha b hb

end FunctionCatalog
