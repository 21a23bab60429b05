import FunctionCatalog.Proofs.NamedSet.Comparison

/-
  FunctionCatalog: entries that clash.
  What is built of entries in order and of further ones has the first entry of each name
  (`find?_foldl_placeBy`), and is refused for those of the further ones that differ from the first
  entry of their name, and only for these (`exists_of_append`).
-/

namespace FunctionCatalog

section Place

variable {α : Type} {key : α → String} {x : α} {xs ys : List α}

/-- Under a key stands what was there, or else what has been placed there. -/
theorem find?_placeBy (h : AscendingBy key xs) (k : String) :
    (placeBy key x xs).find? (fun a => key a == k) =
      (xs ++ [x]).find? (fun a => key a == k) := by
  induction xs with
  | nil => rfl
  | cons a as ih =>
    obtain ⟨ha, has⟩ := List.pairwise_cons.1 h
    rw [placeBy]
    by_cases hlt : key x < key a
    · rw [if_pos hlt, List.find?_append]
      by_cases hk : key x = k
      · -- all that was there is above
        have hnone : (a :: as).find? (fun b => key b == k) = none := by
          refine List.find?_eq_none.2 fun b hb hbk => ?_
          have hxb : key x < key b := by
            rcases List.mem_cons.1 hb with rfl | hb
            · exact hlt
            · exact String.lt_trans hlt (ha b hb)
          rw [beq_iff_eq.1 hbk, hk] at hxb
          exact String.lt_irrefl _ hxb
        rw [hnone]
        simp [hk]
      · simp [List.find?_cons, hk]
    · rw [if_neg hlt, List.cons_append, List.find?_cons]
      by_cases heq : key x = key a
      · rw [if_pos heq, List.find?_cons, List.find?_append]
        by_cases hk : key a = k
        · simp [hk]
        · simp [heq, hk]
      · rw [if_neg heq, List.find?_cons, ih has]

theorem find?_foldl_placeBy (h : AscendingBy key xs) (k : String) :
    (ys.foldl (fun sorted y => placeBy key y sorted) xs).find? (fun a => key a == k) =
      (xs ++ ys).find? (fun a => key a == k) := by
  induction ys generalizing xs with
  | nil => rw [List.foldl_nil, List.append_nil]
  | cons y ys ih =>
    rw [List.foldl_cons, ih (ascendingBy_placeBy h), List.find?_append, find?_placeBy h,
      ← List.find?_append, List.append_assoc, List.singleton_append]

theorem sublist_placeBy (x : α) (xs : List α) : xs.Sublist (placeBy key x xs) := by
  induction xs with
  | nil => exact List.nil_sublist _
  | cons a as ih =>
    rw [placeBy]
    split
    · exact List.sublist_cons_self x (a :: as)
    · split
      · exact List.Sublist.refl _
      · exact ih.cons_cons a

theorem sublist_foldl_placeBy (xs ys : List α) :
    xs.Sublist (ys.foldl (fun sorted y => placeBy key y sorted) xs) := by
  induction ys generalizing xs with
  | nil => exact List.Sublist.refl _
  | cons y ys ih => exact (sublist_placeBy y xs).trans (ih _)

end Place

namespace NamedSet
open Entry

variable {α : Type} [Entry α] {mode : CaseMode} {e : α} {xs es fs : List α}

/-- Entries with further ones placed among them. -/
abbrev extended (xs es : List α) : List α :=
  es.foldl (fun sorted e => placeBy key e sorted) xs

/-! ## Clashes -/

/-- The first of some entries with the name of an entry is not equal to it. -/
def isClash (all : List α) (e : α) : Bool :=
  (all.find? (fun x => key x == key e)).any (fun x => !Entry.same x e)

/-- Those of further entries that are not equal to the first entry of their name. -/
def clashing (xs es : List α) : List α :=
  es.filter (isClash (xs ++ es))

/-- For an entry among others those in front of it decide. -/
theorem isClash_append_cons (hself : Entry.same e e = true) :
    isClash (es ++ e :: fs) e =
      (es.find? (fun x => key x == key e)).any (fun x => !Entry.same x e) := by
  have hfirst : (e :: fs).find? (fun x => key x == key e) = some e := by simp
  rw [isClash, List.find?_append, hfirst]
  cases es.find? (fun x => key x == key e) with
  | none => simp [hself]
  | some x => rfl

theorem clashing_singleton (hself : Entry.same e e = true) :
    clashing es [e] =
      if (es.find? (fun x => key x == key e)).any (fun x => !Entry.same x e) then [e] else [] := by
  rw [clashing, List.filter_cons, isClash_append_cons hself, List.filter_nil]

/-- Further entries can be looked at one by one, each placed before the next. -/
theorem clashing_cons (hxs : AscendingBy key xs) (hself : Entry.same e e = true) :
    clashing xs (e :: es) = clashing xs [e] ++ clashing (placeBy key e xs) es := by
  have hrest : isClash (placeBy key e xs ++ es) = isClash (xs ++ e :: es) := by
    funext f
    rw [isClash, isClash, List.find?_append, find?_placeBy hxs, ← List.find?_append,
      List.append_assoc, List.singleton_append]
  rw [clashing_singleton hself, clashing, clashing, hrest, List.filter_cons,
    isClash_append_cons hself]
  split <;> rfl

/-- An entry among entries in order is the first of its name. -/
theorem find?_append_of_mem (hxs : AscendingBy key xs) (he : e ∈ xs) :
    (xs ++ es).find? (fun x => key x == key e) = some e := by
  rw [List.find?_append]
  cases hfind : xs.find? (fun x => key x == key e) with
  | none =>
    have hne := List.find?_eq_none.1 hfind e he
    simp at hne
  | some x =>
    have hkey := List.find?_some hfind
    rw [hxs.eq_of_key (List.mem_of_find?_eq_some hfind) he (beq_iff_eq.1 hkey)]
    rfl

/-- What is equal to the entry of its name does not clash. -/
theorem isClash_of_same {x : α} (hxs : AscendingBy key xs) (hx : x ∈ xs) (hkey : key x = key e)
    (hsame : Entry.same x e = true) : isClash (xs ++ es) e = false := by
  rw [isClash, ← hkey, find?_append_of_mem hxs hx, Option.any_some, hsame]
  rfl

/-- A single further entry clashes exactly if its name is taken by a different one. -/
theorem isClash_append_singleton (hxs : AscendingBy key xs) (hself : Entry.same e e = true) :
    isClash (xs ++ [e]) e = true ↔ ∃ x ∈ xs, key x = key e ∧ Entry.same x e = false := by
  rw [isClash_append_cons hself, Option.any_eq_true]
  constructor
  · rintro ⟨x, hfind, hdiffer⟩
    have hkey := List.find?_some hfind
    rw [Bool.not_eq_true'] at hdiffer
    exact ⟨x, List.mem_of_find?_eq_some hfind, beq_iff_eq.1 hkey, hdiffer⟩
  · rintro ⟨x, hx, hkey, hdiffer⟩
    have hfind : (xs ++ []).find? (fun a => key a == key x) = some x :=
      find?_append_of_mem hxs hx
    rw [List.append_nil, hkey] at hfind
    exact ⟨x, hfind, by rw [hdiffer]; rfl⟩

/-- What clashes is a second and different entry of a name. -/
theorem exists_of_mem_clashing (he : e ∈ clashing xs es) :
    e ∈ es ∧ ∃ x ∈ xs ++ es, key x = key e ∧ Entry.same x e = false := by
  obtain ⟨hmem, hclash⟩ := List.mem_filter.1 he
  obtain ⟨x, hx, hdiffer⟩ := (Option.any_eq_true _ _).1 hclash
  have hkey := List.find?_some hx
  rw [Bool.not_eq_true'] at hdiffer
  exact ⟨hmem, x, List.mem_of_find?_eq_some hx, beq_iff_eq.1 hkey, hdiffer⟩

/-- Without a clash the first entry of a name is equal to all others of the name. -/
theorem exists_first (hself : Entry.same e e = true) (hxs : AscendingBy key xs)
    (hclash : clashing xs es = []) (he : e ∈ xs ++ es) :
    ∃ f ∈ xs ++ es, (xs ++ es).find? (fun x => key x == key e) = some f ∧
      Entry.same f e = true := by
  have hnone : isClash (xs ++ es) e = false := by
    rcases List.mem_append.1 he with hmem | hmem
    · exact isClash_of_same hxs hmem rfl hself
    · rw [← Bool.not_eq_true]
      exact List.filter_eq_nil_iff.1 hclash e hmem
  cases hfind : (xs ++ es).find? (fun x => key x == key e) with
  | none =>
    have hne := List.find?_eq_none.1 hfind e he
    simp at hne
  | some f =>
    rw [isClash, hfind, Option.any_some, Bool.not_eq_false'] at hnone
    exact ⟨f, List.mem_of_find?_eq_some hfind, rfl, hnone⟩

/-! ## What is built of entries -/

namespace Draft

/-- An entry of the mode is placed unless its name is taken, and noted where it clashes. -/
theorem exists_add_of_mode [SteadyEntry α] (settings : Settings) (d : Draft α mode)
    (hmode : (name e).mode = mode) (hself : Entry.same e e = true) :
    ∃ d', d.add settings e = .ok d' ∧
      d'.set.val.entries = placeBy key e d.set.val.entries ∧
      d'.clashes = d.clashes ++ (clashing d.set.val.entries [e]).map name ∧
      (d.set.val.handle = .loose → d'.set.val.handle = .loose) := by
  rw [add_of_ok (SteadyEntry.withMode_of_mode hmode), clashing_singleton hself]
  cases hfind : d.set.val.find? (key e) with
  | none =>
    rw [show d.set.val.entries.find? (fun x => key x == key e) = none from hfind]
    exact ⟨_, rfl, rfl, (List.append_nil _).symm, fun _ => rfl⟩
  | some x =>
    have hplace : placeBy key e d.set.val.entries = d.set.val.entries :=
      placeBy_of_mem d.set.val.ascending (List.mem_of_find?_eq_some hfind) (key_of_find hfind)
    rw [show d.set.val.entries.find? (fun x => key x == key e) = some x from hfind,
      Option.any_some]
    cases hsame : Entry.same x e with
    | true => exact ⟨d, if_pos hsame, hplace.symm, (List.append_nil _).symm, id⟩
    | false =>
      exact ⟨_, if_neg (by rw [hsame]; exact Bool.false_ne_true), hplace.symm, rfl, id⟩

theorem exists_foldlM_add_of_mode [SteadyEntry α] (settings : Settings) (d : Draft α mode)
    (hmode : ∀ e ∈ es, (name e).mode = mode) (hself : ∀ e ∈ es, Entry.same e e = true) :
    ∃ d', es.foldlM (add settings) d = .ok d' ∧
      d'.set.val.entries = extended d.set.val.entries es ∧
      d'.clashes = d.clashes ++ (clashing d.set.val.entries es).map name ∧
      (d.set.val.handle = .loose → d'.set.val.handle = .loose) := by
  induction es generalizing d with
  | nil => exact ⟨d, rfl, rfl, (List.append_nil _).symm, id⟩
  | cons e es ih =>
    have hself' := hself e List.mem_cons_self
    obtain ⟨d₁, hadd, hentries, hclashes, hloose⟩ :=
      d.exists_add_of_mode settings (hmode e List.mem_cons_self) hself'
    obtain ⟨d₂, hfold, hentries₂, hclashes₂, hloose₂⟩ :=
      ih d₁ (fun f hf => hmode f (List.mem_cons_of_mem e hf))
        (fun f hf => hself f (List.mem_cons_of_mem e hf))
    refine ⟨d₂, ?_, ?_, ?_, fun h => hloose₂ (hloose h)⟩
    · rw [List.foldlM_cons, hadd]
      exact hfold
    · rw [hentries₂, hentries]
      rfl
    · have hsplit : clashing d.set.val.entries (e :: es) = _ :=
        clashing_cons d.set.val.ascending hself'
      rw [hsplit, List.map_append, ← List.append_assoc, ← hclashes, ← hentries]
      exact hclashes₂

end Draft

/-- Entries in order with further ones make a set, unless some of these differ from the first entry
of their name. -/
theorem exists_of_append [SteadyEntry α] (settings : Settings) (hxs : AscendingBy key xs)
    (hmode : ∀ e ∈ xs ++ es, (name e).mode = mode)
    (hself : ∀ e ∈ xs ++ es, Entry.same e e = true) :
    ∃ u : NamedSet α, u.mode = mode ∧ u.entries = extended xs es ∧ u.handle = .loose ∧
      of settings mode (xs ++ es) =
        if clashing xs es = [] then .ok u
        else .error (.duplicateNames (sortDistinctBy Name.key ((clashing xs es).map name))) := by
  obtain ⟨d, hfold, hentries, hclashes, hloose⟩ := Draft.exists_foldlM_add_of_mode settings
    (⟨⟨empty mode, rfl⟩, []⟩ : Draft α mode) hmode hself
  have hall : clashing [] (xs ++ es) = clashing xs es := by
    have hown : xs.filter (isClash (xs ++ es)) = [] := by
      refine List.filter_eq_nil_iff.2 fun x hx => ?_
      rw [isClash_of_same hxs hx rfl (hself x (List.mem_append_left es hx))]
      exact Bool.false_ne_true
    rw [clashing, clashing, List.nil_append, List.filter_append, hown, List.nil_append]
  replace hclashes : d.clashes = (clashing xs es).map name := by
    rw [← hall]
    exact hclashes
  refine ⟨d.set.val, d.set.property, hentries.trans ?_, hloose rfl, ?_⟩
  · show extended [] (xs ++ es) = _
    rw [extended, List.foldl_append]
    exact congrArg (extended · es) (sortDistinctBy_of_ascending hxs)
  · rw [of_eq, hfold]
    show d.finish = _
    simp only [Draft.finish, hclashes, List.isEmpty_map, List.isEmpty_iff]

end NamedSet

end FunctionCatalog
