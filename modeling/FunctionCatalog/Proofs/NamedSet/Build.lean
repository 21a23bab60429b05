import FunctionCatalog.NamedSet.Basic
import FunctionCatalog.Proofs.Outcome

/-
  FunctionCatalog: what a set is built of.
  `NamedSet.of` brings the entries into the mode of the set and puts them in order, the first of
  each name. It succeeds whenever entries of one name are equal (`exists_of_agreeing`), and what it
  builds is always made of the converted entries and has each of them, or an equal one in its place
  (`exists_standing_of`).
-/

namespace FunctionCatalog

/-! ## Placing by key -/

section Place

variable {α : Type} {key : α → String} {x : α} {xs ys : List α}

theorem placeBy_of_lt (h : ∀ a ∈ xs, key a < key x) : placeBy key x xs = xs ++ [x] := by
  induction xs with
  | nil => rfl
  | cons a as ih =>
    have ha := h a List.mem_cons_self
    have hlt : ¬ key x < key a := fun hx => String.lt_irrefl _ (String.lt_trans ha hx)
    have hne : ¬ key x = key a := fun heq => String.lt_irrefl _ (heq ▸ ha)
    rw [placeBy, if_neg hlt, if_neg hne, ih (fun b hb => h b (List.mem_cons_of_mem a hb))]
    rfl

theorem AscendingBy.distinct (h : AscendingBy key xs) :
    xs.Pairwise (fun a b => key a ≠ key b) :=
  h.imp (fun hlt heq => by
    rw [heq] at hlt
    exact String.lt_irrefl _ hlt)

/-- Being in order depends on the keys alone. -/
theorem AscendingBy.of_map_eq {β : Type} {key' : β → String} {zs : List β}
    (h : AscendingBy key xs) (heq : zs.map key' = xs.map key) : AscendingBy key' zs :=
  List.pairwise_map.1 (heq ▸ List.pairwise_map.2 h)

/-- Nothing is placed where the key is taken. -/
theorem placeBy_of_mem {a : α} (h : AscendingBy key xs) (ha : a ∈ xs) (hkey : key a = key x) :
    placeBy key x xs = xs := by
  induction xs with
  | nil => cases ha
  | cons b xs ih =>
    obtain ⟨hb, hxs⟩ := List.pairwise_cons.1 h
    rcases List.mem_cons.1 ha with rfl | ha
    · rw [placeBy, if_neg (hkey ▸ String.lt_irrefl _), if_pos hkey.symm]
    · have hlt : key b < key x := hkey ▸ hb a ha
      have hnlt : ¬ key x < key b := fun hx => String.lt_irrefl _ (String.lt_trans hlt hx)
      have hne : ¬ key x = key b := fun heq => String.lt_irrefl _ (heq ▸ hlt)
      rw [placeBy, if_neg hnlt, if_neg hne, ih hxs ha]

theorem foldl_placeBy_of_ascending (h : AscendingBy key (xs ++ ys)) :
    ys.foldl (fun sorted y => placeBy key y sorted) xs = xs ++ ys := by
  induction ys generalizing xs with
  | nil => simp
  | cons y ys ih =>
    have hlt : ∀ a ∈ xs, key a < key y := fun a ha =>
      (List.pairwise_append.1 h).2.2 a ha y List.mem_cons_self
    rw [List.foldl_cons, placeBy_of_lt hlt, ih (by simpa using h)]
    simp

/-- What is in order already stays as it is. -/
theorem sortDistinctBy_of_ascending (h : AscendingBy key xs) : sortDistinctBy key xs = xs := by
  have hnil : AscendingBy key ([] ++ xs) := h
  exact foldl_placeBy_of_ascending hnil

theorem mem_foldl_placeBy {sorted : List α}
    (h : x ∈ xs.foldl (fun sorted y => placeBy key y sorted) sorted) : x ∈ sorted ∨ x ∈ xs := by
  induction xs generalizing sorted with
  | nil => exact .inl h
  | cons y ys ih =>
    rcases ih h with h | h
    · rcases mem_placeBy h with rfl | h
      · exact .inr List.mem_cons_self
      · exact .inl h
    · exact .inr (List.mem_cons_of_mem y h)

theorem mem_of_mem_sortDistinctBy (h : x ∈ sortDistinctBy key xs) : x ∈ xs :=
  (mem_foldl_placeBy h).resolve_left List.not_mem_nil

theorem placeBy_perm (h : ∀ a ∈ xs, key a ≠ key x) : (placeBy key x xs).Perm (x :: xs) := by
  induction xs with
  | nil => exact .refl _
  | cons a as ih =>
    have hne : ¬ key x = key a := fun heq => h a List.mem_cons_self heq.symm
    rw [placeBy]
    by_cases hlt : key x < key a
    · rw [if_pos hlt]
    · rw [if_neg hlt, if_neg hne]
      exact ((ih fun b hb => h b (List.mem_cons_of_mem a hb)).cons a).trans (.swap x a as)

/-- Where the keys differ nothing is dropped. -/
theorem foldl_placeBy_perm (ys : List α) (h : (ys ++ xs).Pairwise (fun a b => key a ≠ key b)) :
    (xs.foldl (fun sorted x => placeBy key x sorted) ys).Perm (ys ++ xs) := by
  induction xs generalizing ys with
  | nil => simp
  | cons x xs ih =>
    have hplace : (placeBy key x ys).Perm (x :: ys) :=
      placeBy_perm fun a ha => (List.pairwise_append.1 h).2.2 a ha x List.mem_cons_self
    have hmoved : (placeBy key x ys ++ xs).Perm (ys ++ x :: xs) :=
      (hplace.append_right xs).trans List.perm_middle.symm
    exact (ih _ ((hmoved.pairwise_iff Ne.symm).2 h)).trans hmoved

theorem sortDistinctBy_perm (h : xs.Pairwise (fun a b => key a ≠ key b)) :
    (sortDistinctBy key xs).Perm xs :=
  foldl_placeBy_perm [] h

theorem placeBy_map {β : Type} (f : α → β) (key : β → String) (x : α) (xs : List α) :
    placeBy key (f x) (xs.map f) = (placeBy (fun a => key (f a)) x xs).map f := by
  induction xs with
  | nil => rfl
  | cons a as ih =>
    rw [List.map_cons, placeBy, placeBy, ih]
    split
    · rfl
    · split <;> rfl

theorem sortDistinctBy_map {β : Type} (f : α → β) (key : β → String) (xs : List α) :
    sortDistinctBy key (xs.map f) = (sortDistinctBy (fun a => key (f a)) xs).map f := by
  have hfold : ∀ ys : List α,
      (xs.map f).foldl (fun sorted x => placeBy key x sorted) (ys.map f) =
        (xs.foldl (fun sorted x => placeBy (fun a => key (f a)) x sorted) ys).map f := by
    induction xs with
    | nil => exact fun ys => rfl
    | cons x xs ih =>
      intro ys
      rw [List.map_cons, List.foldl_cons, List.foldl_cons, placeBy_map, ih]
  exact hfold []

end Place

namespace NamedSet
open Entry

variable {α : Type} [Entry α] {settings : Settings} {mode : CaseMode}

/-! ## One more entry -/

/-- Among some entries there is this one, or an equal one in its place. -/
def Stands (entries : List α) (e : α) : Prop :=
  ∃ x ∈ entries, key x = key e ∧ (x = e ∨ Entry.same x e = true)

namespace Draft

variable {d d' : Draft α mode} {e e' : α}

theorem key_of_find {x : α} {k : String} (h : d.set.val.find? k = some x) : key x = k := by
  simpa using List.find?_some h

theorem add_of_error {r : Rejection} (h : Entry.withMode settings mode e = .error r) :
    d.add settings e = .error r := by
  unfold add
  split
  · next heq => rw [h] at heq; cases heq; rfl
  · next heq => rw [h] at heq; cases heq

theorem add_of_ok (h : Entry.withMode settings mode e = .ok e') :
    d.add settings e =
      match d.set.val.find? (key e') with
      | none =>
        .ok { d with
          set := ⟨d.set.val.insert e' ((Entry.mode_of_withMode h).trans d.set.property.symm),
            d.set.property⟩ }
      | some present =>
        if Entry.same present e' then .ok d
        else .ok { d with clashes := d.clashes ++ [name e'] } := by
  unfold add
  split
  · next heq => rw [h] at heq; cases heq
  · next heq => rw [h] at heq; cases heq; rfl

/-- An entry is taken in where its name is new or taken by an equal entry. -/
theorem exists_add (he : Entry.withMode settings mode e = .ok e')
    (hagree : ∀ x ∈ d.set.val.entries, key x = key e' → Entry.same x e' = true) :
    ∃ d', d.add settings e = .ok d' ∧
      d'.set.val.entries = placeBy key e' d.set.val.entries ∧ d'.clashes = d.clashes := by
  rw [add_of_ok he]
  split
  · exact ⟨_, rfl, rfl, rfl⟩
  · next present hfind =>
    have hpresent := List.mem_of_find?_eq_some hfind
    have hkey := key_of_find hfind
    rw [if_pos (hagree present hpresent hkey)]
    exact ⟨d, rfl, (placeBy_of_mem d.set.val.ascending hpresent hkey).symm, rfl⟩

/-- Whether the name is new, taken by an equal entry or by another one, the entries are those of
placing the converted entry. Without a clash the entry stands among them. -/
theorem exists_converted_add (h : d.add settings e = .ok d') :
    ∃ e', Entry.withMode settings mode e = .ok e' ∧
      d'.set.val.entries = placeBy key e' d.set.val.entries ∧
      (d'.clashes = [] → d.clashes = [] ∧ Stands d'.set.val.entries e' ∧
        d.set.val.entries ⊆ d'.set.val.entries) := by
  cases he : Entry.withMode settings mode e with
  | error r =>
    rw [add_of_error he] at h
    cases h
  | ok e' =>
    rw [add_of_ok he] at h
    refine ⟨e', rfl, ?_⟩
    split at h
    · next hnone =>
      cases h
      have hdiffer : ∀ x ∈ d.set.val.entries, key x ≠ key e' := by
        simpa [find?] using hnone
      have hperm := placeBy_perm hdiffer
      refine ⟨rfl, fun hclashes => ⟨hclashes, ⟨e', ?_, rfl, .inl rfl⟩, fun x hx => ?_⟩⟩
      · exact hperm.symm.subset List.mem_cons_self
      · exact hperm.symm.subset (List.mem_cons_of_mem e' hx)
    · next present hfind =>
      have hpresent := List.mem_of_find?_eq_some hfind
      have hkey := key_of_find hfind
      have hplace : placeBy key e' d.set.val.entries = d.set.val.entries :=
        placeBy_of_mem d.set.val.ascending hpresent hkey
      split at h
      · next hsame =>
        cases h
        exact ⟨hplace.symm, fun hclashes =>
          ⟨hclashes, ⟨present, hpresent, hkey, .inr hsame⟩, fun x hx => hx⟩⟩
      · cases h
        refine ⟨hplace.symm, fun hclashes => ?_⟩
        exact absurd hclashes (List.append_ne_nil_of_right_ne_nil _ (List.cons_ne_nil _ _))

/-- An entry that can be brought into the mode is taken in or noted as a clash. -/
theorem exists_add_of_withMode (d : Draft α mode) (he : Entry.withMode settings mode e = .ok e') :
    ∃ d', d.add settings e = .ok d' := by
  rw [add_of_ok he]
  split
  · exact ⟨_, rfl⟩
  · split <;> exact ⟨_, rfl⟩

/-- Adding entries fails exactly as bringing them into the mode does. -/
theorem map_foldlM_add (settings : Settings) (entries : List α) (d : Draft α mode) :
    (entries.foldlM (add settings) d).map (fun _ => ()) =
      (entries.mapM (Entry.withMode settings mode)).map (fun _ => ()) := by
  induction entries generalizing d with
  | nil => rfl
  | cons e entries ih =>
    rw [List.foldlM_cons, List.mapM_cons]
    cases he : Entry.withMode settings mode e with
    | error r =>
      rw [add_of_error he]
      rfl
    | ok e' =>
      obtain ⟨d', hadd⟩ := exists_add_of_withMode d he
      rw [hadd]
      refine (ih d').trans ?_
      show _ = (entries.mapM (Entry.withMode settings mode) >>= fun es => pure (e' :: es)).map _
      cases entries.mapM (Entry.withMode settings mode) <;> rfl

theorem exists_foldlM_add {entries es : List α} {d : Draft α mode}
    (hes : entries.mapM (Entry.withMode settings mode) = .ok es)
    (hagree : ∀ x ∈ d.set.val.entries, ∀ e ∈ es, key x = key e → Entry.same x e = true)
    (hpairwise : es.Pairwise (fun a b => key a = key b → Entry.same a b = true)) :
    ∃ d', entries.foldlM (add settings) d = .ok d' ∧
      d'.set.val.entries = es.foldl (fun sorted e => placeBy key e sorted) d.set.val.entries ∧
      d'.clashes = d.clashes := by
  induction entries generalizing d es with
  | nil =>
    cases hes
    exact ⟨d, rfl, rfl, rfl⟩
  | cons e entries ih =>
    rw [List.mapM_cons] at hes
    obtain ⟨e', he, htail⟩ := exists_of_bind_ok hes
    obtain ⟨es', hes', heq⟩ := exists_of_bind_ok htail
    cases heq
    obtain ⟨hhead, htail'⟩ := List.pairwise_cons.1 hpairwise
    obtain ⟨d₁, hadd, hentries, hclashes⟩ :=
      exists_add he (fun x hx => hagree x hx e' List.mem_cons_self)
    have hagree' : ∀ x ∈ d₁.set.val.entries, ∀ f ∈ es', key x = key f →
        Entry.same x f = true := by
      intro x hx f hf
      rw [hentries] at hx
      rcases mem_placeBy hx with rfl | hx
      · exact hhead f hf
      · exact hagree x hx f (List.mem_cons_of_mem e' hf)
    obtain ⟨d₂, hfold, hentries', hclashes'⟩ := ih hes' hagree' htail'
    refine ⟨d₂, ?_, ?_, hclashes'.trans hclashes⟩
    · rw [List.foldlM_cons, hadd]
      exact hfold
    · rw [hentries', hentries]
      rfl

theorem exists_converted_foldlM {entries : List α} {d d' : Draft α mode}
    (h : entries.foldlM (add settings) d = .ok d') :
    ∃ es, entries.mapM (Entry.withMode settings mode) = .ok es ∧
      d'.set.val.entries =
        es.foldl (fun sorted e => placeBy key e sorted) d.set.val.entries ∧
      (d'.clashes = [] → d.clashes = [] ∧ (∀ e ∈ es, Stands d'.set.val.entries e) ∧
        d.set.val.entries ⊆ d'.set.val.entries) := by
  induction entries generalizing d with
  | nil =>
    cases h
    exact ⟨[], rfl, rfl, fun hclashes => ⟨hclashes, by simp, fun x hx => hx⟩⟩
  | cons e entries ih =>
    rw [List.foldlM_cons] at h
    obtain ⟨d₁, hadd, hfold⟩ := exists_of_bind_ok h
    obtain ⟨e', he, hentries, hfirst⟩ := exists_converted_add hadd
    obtain ⟨es, hes, hrest, hlater⟩ := ih hfold
    refine ⟨e' :: es, ?_, ?_, fun hclashes => ?_⟩
    · rw [List.mapM_cons, he, hes]
      rfl
    · rw [hrest, hentries]
      rfl
    · obtain ⟨hclashes₁, hstands, hsubset⟩ := hlater hclashes
      obtain ⟨hclashes₀, ⟨x, hx, hstand⟩, hsubset₁⟩ := hfirst hclashes₁
      refine ⟨hclashes₀, fun f hf => ?_, fun y hy => hsubset (hsubset₁ hy)⟩
      rcases List.mem_cons.1 hf with rfl | hf
      · exact ⟨x, hsubset hx, hstand⟩
      · exact hstands f hf

end Draft

/-! ## The whole set -/

theorem of_eq (entries : List α) :
    of settings mode entries =
      (entries.foldlM (Draft.add settings) (⟨⟨empty mode, rfl⟩, []⟩ : Draft α mode) >>=
        Draft.finish) := by
  have hid : ∀ {β : Type} (x : Except Rejection β), x.mapError id = x := by
    intro β x
    cases x <;> rfl
  simp only [of, ofSteps, List.foldlM_map, bind, Except.bind, hid]

/-- Entries that are equal where their names are make a set. -/
theorem exists_of_agreeing {entries es : List α}
    (hes : entries.mapM (Entry.withMode settings mode) = .ok es)
    (hagree : es.Pairwise (fun a b => key a = key b → Entry.same a b = true)) :
    ∃ t, of settings mode entries = .ok t ∧ t.mode = mode ∧
      t.entries = sortDistinctBy key es := by
  obtain ⟨d, hfold, hentries, hclashes⟩ := Draft.exists_foldlM_add
    (d := (⟨⟨empty mode, rfl⟩, []⟩ : Draft α mode)) hes
    (fun x hx => absurd hx List.not_mem_nil) hagree
  refine ⟨d.set.val, ?_, d.set.property, hentries⟩
  rw [of_eq, hfold]
  show d.finish = _
  rw [Draft.finish, hclashes]
  rfl

/-- Entries whose names differ make a set. -/
theorem exists_of {entries es : List α}
    (hes : entries.mapM (Entry.withMode settings mode) = .ok es)
    (hdistinct : es.Pairwise (fun a b => key a ≠ key b)) :
    ∃ t, of settings mode entries = .ok t ∧ t.mode = mode ∧
      t.entries = sortDistinctBy key es :=
  exists_of_agreeing hes (hdistinct.imp fun hne heq => absurd heq hne)

/-- A set is made of its entries brought into its mode, each of which is in it or has an equal one
in its place. -/
theorem exists_standing_of {entries : List α} {t : NamedSet α}
    (h : of settings mode entries = .ok t) :
    t.mode = mode ∧ ∃ es, entries.mapM (Entry.withMode settings mode) = .ok es ∧
      t.entries = sortDistinctBy key es ∧ ∀ e ∈ es, Stands t.entries e := by
  rw [of_eq] at h
  obtain ⟨d, hfold, hfinish⟩ := exists_of_bind_ok h
  obtain ⟨es, hes, hentries, hstands⟩ := Draft.exists_converted_foldlM hfold
  unfold Draft.finish at hfinish
  split at hfinish
  · next hclashes =>
    cases hfinish
    exact ⟨d.set.property, es, hes, hentries, (hstands (List.isEmpty_iff.1 hclashes)).2.1⟩
  · cases hfinish

theorem exists_converted_of {entries : List α} {t : NamedSet α}
    (h : of settings mode entries = .ok t) :
    t.mode = mode ∧ ∃ es, entries.mapM (Entry.withMode settings mode) = .ok es ∧
      t.entries = sortDistinctBy key es := by
  obtain ⟨hmode, es, hes, hentries, -⟩ := exists_standing_of h
  exact ⟨hmode, es, hes, hentries⟩

/-- What cannot be brought into the mode cannot come into a set. -/
theorem of_eq_error {entries : List α} {r : Rejection}
    (h : entries.mapM (Entry.withMode settings mode) = .error r) :
    of settings mode entries = .error r := by
  have hfold := Draft.map_foldlM_add settings entries
    (⟨⟨empty mode, rfl⟩, []⟩ : Draft α mode)
  rw [h] at hfold
  rw [of_eq, error_of_map_error hfold]
  rfl

/-- Apart from that only the names of entries keep them from being a set. -/
theorem of_cases {entries es : List α}
    (h : entries.mapM (Entry.withMode settings mode) = .ok es) :
    (∃ t, of settings mode entries = .ok t) ∨
      ∃ names, of settings mode entries = .error (.duplicateNames names) := by
  have hfold := Draft.map_foldlM_add settings entries
    (⟨⟨empty mode, rfl⟩, []⟩ : Draft α mode)
  rw [h] at hfold
  obtain ⟨d, hd, -⟩ := exists_of_map_ok hfold
  rw [of_eq, hd]
  show (∃ t, d.finish = .ok t) ∨ ∃ names, d.finish = .error (.duplicateNames names)
  unfold Draft.finish
  split
  · exact .inl ⟨_, rfl⟩
  · exact .inr ⟨_, rfl⟩

end NamedSet

end FunctionCatalog
