import FunctionCatalog.Proofs.Value.Bare

/-
  FunctionCatalog: when values that can be keys are the same.
  Among values that can be part of a key sameness is reflexive and symmetric. It is not
  transitive, as the names of two modes show. But two keys that are the same and equal in their bare
  forms are the same as the same values (`Value.same_of_bare`).
-/

namespace FunctionCatalog

/-! ## Reflexivity -/

theorem Number.same_refl (n : Number) : n.same n = true := by
  cases n <;> simp [same]

theorem Moment.same_refl (m : Moment) : m.same m = true := by
  rcases m with d | ⟨d, t, _ | o⟩ <;> simp [same]

theorem Name.same_refl (n : Name) : n.same n = true :=
  same_of_value rfl

theorem Selector.same_refl (s : Selector) : s.same s = true := by
  rw [same, s.name.same_refl, beq_self_eq_true, Bool.and_self]

theorem Alias.same_refl (a : Alias) : a.same a = true := by
  have htarget : sameTarget a.target a.target = true := by
    cases a.target with
    | none => rfl
    | some s => exact s.same_refl
  rw [same, a.name.same_refl, htarget, beq_self_eq_true, Bool.and_self, Bool.and_self]

mutual

theorem Value.same_refl {v : Value} (hv : v.isKey = true) : v.same v = true := by
  cases v with
  | list vs => cases hv
  | record ks vs => cases hv
  | tuple vs => simpa only [Value.same] using Value.allSame_refl hv
  | item i => simpa only [Value.same] using Item.same_refl hv
  | set k m es h => simpa [Value.same] using Item.allSame_refl hv
  | _ =>
    simp [Value.same, Value.number?, Value.text?, Name.same_refl, Moment.same_refl,
      Number.same_refl]

theorem Value.allSame_refl {vs : List Value} (hvs : Value.allKeys vs = true) :
    Value.allSame vs vs = true := by
  cases vs with
  | nil => simp only [Value.allSame]
  | cons v vs =>
    obtain ⟨hv, hvs⟩ := Bool.and_eq_true_iff.1 hvs
    simp only [Value.allSame, Value.same_refl hv, Value.allSame_refl hvs, Bool.and_self]

theorem Item.same_refl {i : Item} (hi : i.isKey = true) : i.same i = true := by
  cases i with
  | info i => simp [Item.same, Info.same, Name.same_refl]
  | infoWith n t h => simpa [Item.same, Name.same_refl] using Value.same_refl hi
  | selector s => simpa only [Item.same] using s.same_refl
  | «alias» a => simpa only [Item.same] using a.same_refl
  | aliasWith n s t h =>
    simpa [Item.same, Name.same_refl, Selector.same_refl] using Value.same_refl hi
  | function f => simpa only [Item.same] using NamedFunction.same_refl hi

theorem Item.allSame_refl {is : List Item} (his : Item.allKeys is = true) :
    Item.allSame is is = true := by
  cases is with
  | nil => simp only [Item.allSame]
  | cons i is =>
    obtain ⟨hi, his⟩ := Bool.and_eq_true_iff.1 his
    simp only [Item.allSame, Item.same_refl hi, Item.allSame_refl his, Bool.and_self]

theorem NamedFunction.same_refl {f : NamedFunction} (hf : f.isKey = true) : f.same f = true := by
  obtain ⟨n, o, vs, h⟩ := f
  simpa [NamedFunction.same, Name.same_refl] using Value.allSame_refl hf

end

/-! ## Symmetry -/

theorem Number.same_comm (m n : Number) : m.same n = n.same m := by
  cases m <;> cases n <;>
    simp only [same, Binary64.equal, Bool.beq_comm, Bool.and_comm]

theorem Moment.same_comm (m n : Moment) : m.same n = n.same m := by
  rcases m with d | ⟨d, t, _ | o⟩ <;> rcases n with e | ⟨e, u, _ | p⟩ <;>
    simp only [same, Bool.beq_comm]

theorem Info.same_comm (i j : Info) : i.same j = j.same i := by
  rw [same, same, Name.same_comm, Bool.beq_comm]

theorem Selector.same_comm (s t : Selector) : s.same t = t.same s := by
  rw [same, same, Name.same_comm, Bool.beq_comm]

theorem Alias.same_comm (a b : Alias) : a.same b = b.same a := by
  have htarget : sameTarget a.target b.target = sameTarget b.target a.target := by
    cases a.target <;> cases b.target <;> first | rfl | exact Selector.same_comm _ _
  rw [same, same, Name.same_comm, htarget, Bool.beq_comm (a := a.token)]

mutual

theorem Value.same_comm {v : Value} (hv : v.isKey = true) (w : Value) : v.same w = w.same v := by
  cases v with
  | list vs => cases hv
  | record ks vs => cases hv
  | tuple vs =>
    cases w with
    | tuple ws => simp only [Value.same, Value.allSame_comm hv ws]
    | _ => simp [Value.same, Value.number?, Value.text?]
  | item i =>
    cases w with
    | item j => simp only [Value.same, Item.same_comm hv j]
    | _ => simp [Value.same, Value.number?, Value.text?]
  | set k m es h =>
    cases w with
    | set l n fs g => simp only [Value.same, Item.allSame_comm hv fs, Bool.beq_comm]
    | _ => simp [Value.same, Value.number?, Value.text?]
  | _ =>
    cases w <;>
      simp [Value.same, Value.number?, Value.text?, Bool.beq_comm, Name.same_comm,
        Moment.same_comm, Number.same_comm]

theorem Value.allSame_comm {vs : List Value} (hvs : Value.allKeys vs = true) (ws : List Value) :
    Value.allSame vs ws = Value.allSame ws vs := by
  cases vs with
  | nil => cases ws <;> simp only [Value.allSame]
  | cons v vs =>
    obtain ⟨hv, hvs⟩ := Bool.and_eq_true_iff.1 hvs
    cases ws with
    | nil => simp only [Value.allSame]
    | cons w ws => simp only [Value.allSame, Value.same_comm hv w, Value.allSame_comm hvs ws]

theorem Item.same_comm {i : Item} (hi : i.isKey = true) (j : Item) : i.same j = j.same i := by
  cases i with
  | info i =>
    cases j with
    | info j => simp only [Item.same, Info.same_comm i j]
    | infoWith n t h => simp only [Item.same, Name.same_comm i.name]
    | _ => simp only [Item.same]
  | infoWith n t h =>
    cases j with
    | infoWith m u g => simp only [Item.same, Name.same_comm n m, Value.same_comm hi u]
    | info j => simp only [Item.same, Name.same_comm n j.name]
    | _ => simp only [Item.same]
  | selector s =>
    cases j with
    | selector t => simp only [Item.same, Selector.same_comm s t]
    | _ => simp only [Item.same]
  | «alias» a =>
    cases j with
    | «alias» b => simp only [Item.same, Alias.same_comm a b]
    | aliasWith n s t h => simp only [Item.same, Name.same_comm a.name, Selector.same_comm s]
    | _ => simp only [Item.same]
  | aliasWith n s t h =>
    cases j with
    | «alias» b => simp only [Item.same, Name.same_comm n, Selector.same_comm s]
    | aliasWith m r u g =>
      simp only [Item.same, Name.same_comm n m, Selector.same_comm s r, Value.same_comm hi u]
    | _ => simp only [Item.same]
  | function f =>
    cases j with
    | function g => simp only [Item.same, NamedFunction.same_comm hi g]
    | _ => simp only [Item.same]

theorem Item.allSame_comm {is : List Item} (his : Item.allKeys is = true) (js : List Item) :
    Item.allSame is js = Item.allSame js is := by
  cases is with
  | nil => cases js <;> simp only [Item.allSame]
  | cons i is =>
    obtain ⟨hi, his⟩ := Bool.and_eq_true_iff.1 his
    cases js with
    | nil => simp only [Item.allSame]
    | cons j js => simp only [Item.allSame, Item.same_comm hi j, Item.allSame_comm his js]

theorem NamedFunction.same_comm {f : NamedFunction} (hf : f.isKey = true) (g : NamedFunction) :
    f.same g = g.same f := by
  obtain ⟨n, o, vs, h⟩ := f
  obtain ⟨m, p, ws, k⟩ := g
  simp only [NamedFunction.same, Name.same_comm n m, Value.allSame_comm hf ws,
    Bool.beq_comm (a := o)]

end

/-! ## Keys that are alike but for their objects -/

theorem Binary64.eq_of_bare {x y : Binary64} (hbare : x.bare = y.bare)
    (h : (Number.double x).same (.double y) = true) : x = y := by
  simp only [Number.same, equal, Bool.or_eq_true, beq_iff_eq, Bool.and_eq_true,
    Bool.not_eq_true'] at h
  rcases h with h | ⟨⟨hx, hy⟩, -⟩
  · exact h
  · rwa [bare, bare, if_neg (by simp [hx]), if_neg (by simp [hy])] at hbare

theorem Name.same_of_bare {m n : Name} (h : m.bare = n.bare) (o : Name) : m.same o = n.same o := by
  obtain ⟨v, mode, hv, g⟩ := m
  obtain ⟨w, mode', hw, k⟩ := n
  cases h
  rfl

theorem Info.eq_of_bare {i j : Info} (h : i.bare = j.bare) :
    i.name.bare = j.name.bare ∧ i.token = j.token := by
  simpa [bare] using h

theorem Value.text?_of_bare {v w : Value} (h : v.bare = w.bare) : v.text? = w.text? := by
  rw [← v.text?_bare, h, w.text?_bare]

theorem Selector.same_of_bare {s t : Selector} (h : s.bare = t.bare) (r : Selector) :
    s.same r = t.same r := by
  obtain ⟨hn, ht⟩ : s.name.bare = t.name.bare ∧ s.valueText = t.valueText := by
    simpa [bare] using h
  rw [same, same, Name.same_of_bare hn, ht]

/-- Aliases that are alike but for their objects. -/
theorem Alias.eq_of_bare {a b : Alias} (h : a.bare = b.bare) :
    a.name.bare = b.name.bare ∧ a.target.map Selector.bare = b.target.map Selector.bare ∧
      a.token = b.token := by
  have hparts : ∀ c : Alias, c.name.bare = c.bare.name ∧ c.target.map Selector.bare = c.bare.target ∧
      c.token = c.bare.token := fun c => ⟨rfl, rfl, rfl⟩
  obtain ⟨hname, htarget, htoken⟩ := hparts a
  rw [hname, htarget, htoken, h]
  exact hparts b

theorem Alias.target_same_of_bare {a b : Alias} (h : a.bare = b.bare) :
    sameTarget a.target = sameTarget b.target := by
  obtain ⟨-, htarget, -⟩ := eq_of_bare h
  funext r
  cases ha : a.target <;> cases hb : b.target <;> rw [ha, hb] at htarget <;> cases r <;>
    simp_all [sameTarget]
  exact Selector.same_of_bare htarget _

theorem Alias.any_same_of_bare {a b : Alias} (h : a.bare = b.bare) (s : Selector) :
    a.target.any (fun t => t.same s) = b.target.any (fun t => t.same s) := by
  have hany : ∀ c : Alias, c.target.any (fun t => t.same s) = sameTarget c.target (some s) := by
    intro c
    cases c.target <;> rfl
  rw [hany, hany, target_same_of_bare h]

mutual

/-- Keys that are the same and alike but for their objects are the same as the same values. -/
theorem Value.same_of_bare {v w : Value} (hv : v.isKey = true) (hbare : v.bare = w.bare)
    (h : v.same w = true) (x : Value) : v.same x = w.same x := by
  cases v with
  | list vs => cases hv
  | record ks vs => cases hv
  | double y =>
    cases w <;> simp only [Value.bare, reduceCtorEq, Value.double.injEq] at hbare
    rw [Binary64.eq_of_bare hbare (by simpa [Value.same, Value.number?] using h)]
  | tuple vs =>
    cases w <;> simp only [Value.bare, reduceCtorEq, Value.tuple.injEq] at hbare
    rw [Value.same] at h
    have hall := Value.allSame_of_bare hv hbare h
    cases x with
    | tuple xs => simp only [Value.same, hall]
    | _ => simp only [Value.same, Value.number?, Value.text?]
  | name n =>
    cases w <;> simp only [Value.bare, reduceCtorEq, Value.name.injEq] at hbare
    have hname := Name.same_of_bare hbare
    cases x with
    | name o => simp only [Value.same, hname]
    | _ => simp only [Value.same, Value.number?, Value.text?]
  | item i =>
    cases w <;> simp only [Value.bare, reduceCtorEq, Value.item.injEq] at hbare
    rw [Value.same] at h
    have hitem := Item.same_of_bare hv hbare h
    cases x with
    | item k => simp only [Value.same, hitem]
    | _ => simp only [Value.same, Value.number?, Value.text?]
  | set k m es g =>
    cases w <;> simp only [Value.bare, reduceCtorEq, Value.set.injEq] at hbare
    obtain ⟨rfl, rfl, hentries, -⟩ := hbare
    simp only [Value.same, Bool.and_eq_true] at h
    have hall := Item.allSame_of_bare hv hentries h.2
    cases x with
    | set l n fs g => simp only [Value.same, hall]
    | _ => simp only [Value.same, Value.number?, Value.text?]
  | _ =>
    cases w <;> cases hbare
    rfl
termination_by structural v

theorem Value.allSame_of_bare {vs ws : List Value} (hvs : Value.allKeys vs = true)
    (hbare : Value.bareAll vs = Value.bareAll ws) (h : Value.allSame vs ws = true)
    (xs : List Value) : Value.allSame vs xs = Value.allSame ws xs := by
  cases vs with
  | nil =>
    cases ws <;> cases hbare
    rfl
  | cons v vs =>
    cases ws with
    | nil => cases hbare
    | cons w ws =>
      obtain ⟨hv, hvs⟩ := Bool.and_eq_true_iff.1 hvs
      simp only [Value.bareAll, List.cons.injEq] at hbare
      simp only [Value.allSame, Bool.and_eq_true] at h
      have hfirst := Value.same_of_bare hv hbare.1 h.1
      have hrest := Value.allSame_of_bare hvs hbare.2 h.2
      cases xs <;> simp only [Value.allSame, hfirst, hrest]
termination_by structural vs

theorem Item.same_of_bare {i j : Item} (hi : i.isKey = true) (hbare : i.bare = j.bare)
    (h : i.same j = true) (x : Item) : i.same x = j.same x := by
  cases i with
  | info i =>
    cases j <;> simp only [Item.bare, reduceCtorEq, Item.info.injEq] at hbare
    obtain ⟨hname, htoken⟩ := Info.eq_of_bare hbare
    cases x <;> simp only [Item.same, Info.same, Name.same_of_bare hname, htoken]
  | infoWith n t k =>
    cases j <;> simp only [Item.bare, reduceCtorEq, Item.infoWith.injEq] at hbare
    obtain ⟨hname, htoken, -⟩ := hbare
    simp only [Item.same, Bool.and_eq_true] at h
    have hsame := Value.same_of_bare hi htoken h.2
    have htext := Value.text?_of_bare htoken
    cases x <;> simp only [Item.same, Name.same_of_bare hname, hsame, htext]
  | selector s =>
    cases j <;> simp only [Item.bare, reduceCtorEq, Item.selector.injEq] at hbare
    cases x <;> simp only [Item.same, Selector.same_of_bare hbare]
  | «alias» a =>
    cases j <;> simp only [Item.bare, reduceCtorEq, Item.alias.injEq] at hbare
    obtain ⟨hname, -, htoken⟩ := Alias.eq_of_bare hbare
    cases x <;> simp only [Item.same, Alias.same, Name.same_of_bare hname, htoken,
      Alias.target_same_of_bare hbare, Alias.any_same_of_bare hbare]
  | aliasWith n s t k =>
    cases j <;> simp only [Item.bare, reduceCtorEq, Item.aliasWith.injEq] at hbare
    obtain ⟨hname, htarget, htoken, -⟩ := hbare
    simp only [Item.same, Bool.and_eq_true] at h
    have hsame := Value.same_of_bare hi htoken h.2
    have htext := Value.text?_of_bare htoken
    cases x <;> simp only [Item.same, Name.same_of_bare hname, Selector.same_of_bare htarget, hsame,
      htext]
  | function f =>
    cases j <;> simp only [Item.bare, reduceCtorEq, Item.function.injEq] at hbare
    rw [Item.same] at h
    have hfunction := NamedFunction.same_of_bare hi hbare h
    cases x <;> simp only [Item.same, hfunction]
termination_by structural i

theorem Item.allSame_of_bare {is js : List Item} (his : Item.allKeys is = true)
    (hbare : Item.bareAll is = Item.bareAll js) (h : Item.allSame is js = true)
    (xs : List Item) : Item.allSame is xs = Item.allSame js xs := by
  cases is with
  | nil =>
    cases js <;> cases hbare
    rfl
  | cons i is =>
    cases js with
    | nil => cases hbare
    | cons j js =>
      obtain ⟨hi, his⟩ := Bool.and_eq_true_iff.1 his
      simp only [Item.bareAll, List.cons.injEq] at hbare
      simp only [Item.allSame, Bool.and_eq_true] at h
      have hfirst := Item.same_of_bare hi hbare.1 h.1
      have hrest := Item.allSame_of_bare his hbare.2 h.2
      cases xs <;> simp only [Item.allSame, hfirst, hrest]
termination_by structural is

theorem NamedFunction.same_of_bare {f g : NamedFunction} (hf : f.isKey = true)
    (hbare : f.bare = g.bare) (h : f.same g = true) (x : NamedFunction) : f.same x = g.same x := by
  obtain ⟨n, o, vs, k⟩ := f
  obtain ⟨m, p, ws, l⟩ := g
  simp only [NamedFunction.bare, NamedFunction.mk.injEq] at hbare
  obtain ⟨hname, rfl, hparameters, -⟩ := hbare
  simp only [NamedFunction.same, Bool.and_eq_true] at h
  have hall := Value.allSame_of_bare hf hparameters h.2
  cases x
  simp only [NamedFunction.same, Name.same_of_bare hname, hall]
termination_by structural f

end

/-! ## Agreement -/

namespace Value

variable {vs ws : List Value}

theorem allSame_of_allAgree (h : allAgree vs ws = true) : allSame vs ws = true := by
  induction vs generalizing ws with
  | nil =>
    cases ws with
    | nil => simp only [allSame]
    | cons w ws => cases h
  | cons v vs ih =>
    cases ws with
    | nil => cases h
    | cons w ws =>
      simp only [allAgree, agrees, Bool.and_eq_true] at h
      simp only [allSame, h.1.2, ih h.2, Bool.and_self]

theorem allAgree_refl {vs : List Value} (hvs : allKeys vs = true) :
    allAgree vs vs = true := by
  induction vs with
  | nil => rfl
  | cons v vs ih =>
    obtain ⟨hv, hvs⟩ := Bool.and_eq_true_iff.1 hvs
    simp only [allAgree, agrees, same_refl hv, ih hvs, beq_self_eq_true,
      Bool.and_self]

theorem allAgree_comm (hvs : allKeys vs = true) (ws : List Value) :
    allAgree vs ws = allAgree ws vs := by
  induction vs generalizing ws with
  | nil => cases ws <;> rfl
  | cons v vs ih =>
    obtain ⟨hv, hvs⟩ := Bool.and_eq_true_iff.1 hvs
    cases ws with
    | nil => rfl
    | cons w ws =>
      simp only [allAgree, agrees, same_comm hv w, ih hvs ws, Bool.beq_comm (a := v.kindText)]

theorem allAgree_of_bare (hvs : allKeys vs = true) (hbare : bareAll vs = bareAll ws)
    (h : allAgree vs ws = true) (xs : List Value) : allAgree vs xs = allAgree ws xs := by
  induction vs generalizing ws xs with
  | nil =>
    cases ws with
    | nil => rfl
    | cons w ws => cases h
  | cons v vs ih =>
    obtain ⟨hv, hvs⟩ := Bool.and_eq_true_iff.1 hvs
    cases ws with
    | nil => cases h
    | cons w ws =>
      simp only [bareAll, List.cons.injEq] at hbare
      simp only [allAgree, agrees, Bool.and_eq_true] at h
      cases xs with
      | nil => rfl
      | cons x xs =>
        simp only [allAgree, agrees, kindText_of_bare hbare.1, same_of_bare hv hbare.1 h.1.2,
          ih hvs hbare.2 h.2]

end Value

end FunctionCatalog
