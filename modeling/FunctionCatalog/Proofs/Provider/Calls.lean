import FunctionCatalog.Proofs.Resolution
import FunctionCatalog.Proofs.Value.Same
import FunctionCatalog.Provider.Leaf

/-
  FunctionCatalog: a call of a leaf.
  A call fails, hands out a function as it is, hands out a kept materialization or binds values
  anew, and only the last may add to what is kept (`Leaf.does_resolveName`).
-/

namespace FunctionCatalog.Leaf

variable {leaf : Leaf} {c : Call} {key key' : String} {f f' : NamedFunction} {vs ws : List Value}
  {memory : Memory (List Materialization)} {kept : List Materialization} {m : Materialization}

/-! ## What is asked for -/

/-- The folded name that a call is for. -/
def calledKey (leaf : Leaf) (c : Call) : Option String :=
  c.name.valuePart?.map leaf.mode.fold

/-- A call for the function `f`, which has this folded name, with values for it. -/
structure Asks (leaf : Leaf) (c : Call) (key : String) (f : NamedFunction) (vs : List Value) :
    Prop where
  called : leaf.calledKey c = some key
  known : leaf.function? key = some (.function f)
  values : c.values.items? = some vs
  nonempty : vs ≠ []

theorem Asks.unique (h : leaf.Asks c key f vs) (h' : leaf.Asks c key' f' ws) :
    key = key' ∧ f = f' ∧ vs = ws := by
  obtain rfl := Option.some.inj (h.called.symm.trans h'.called)
  have hfunction := h.known.symm.trans h'.known
  simp only [Option.some.injEq, Item.function.injEq] at hfunction
  exact ⟨rfl, hfunction, Option.some.inj (h.values.symm.trans h'.values)⟩

/-! ## What is kept -/

/-- What is kept for a folded name and values. -/
def lookup (kept : List Materialization) (key : String) (vs : List Value) :
    Option Materialization :=
  kept.find? (fun m => m.key == key && Value.allAgree m.values vs)

theorem eq_of_lookup (h : lookup kept key vs = some m) :
    m ∈ kept ∧ m.key = key ∧ Value.allAgree m.values vs = true := by
  have hfound := List.find?_some h
  rw [Bool.and_eq_true, beq_iff_eq] at hfound
  exact ⟨List.mem_of_find?_eq_some h, hfound⟩

theorem lookup_append (h : lookup kept key vs = some m) (more : List Materialization) :
    lookup (kept ++ more) key vs = some m := by
  rw [lookup] at h ⊢
  rw [List.find?_append, h]
  rfl

theorem lookup_append_of_none (hkeys : Value.allKeys vs = true)
    (hnone : lookup kept key vs = none) (g : NamedFunction) :
    lookup (kept ++ [⟨key, vs, g⟩]) key vs = some ⟨key, vs, g⟩ := by
  rw [lookup] at hnone ⊢
  rw [List.find?_append, hnone, Option.none_or]
  exact List.find?_cons_of_pos (by simp [Value.allAgree_refl hkeys])

/-! ## What a call does -/

/-- The function with values bound to it as an object, and the next number after it. -/
def bound (f : NamedFunction) (vs : List Value) (next : Nat) : NamedFunction × Nat :=
  (f.withParameters vs).settle.run next

/-- What a call does. -/
inductive Does (leaf : Leaf) (c : Call) (memory : Memory (List Materialization)) :
    Except Failure Value × Memory (List Materialization) → Prop
  | fails (hasks : ∀ key f vs, ¬ leaf.Asks c key f vs) (e : Failure) :
      Does leaf c memory (.error e, memory)
  | asIs (hasks : ∀ key f vs, ¬ leaf.Asks c key f vs) {key : String} {item : Item}
      (hkey : leaf.calledKey c = some key) (hitem : leaf.function? key = some item) :
      Does leaf c memory (.ok (.item item), memory)
  | again {key : String} {f : NamedFunction} {vs : List Value} {m : Materialization}
      (hasks : leaf.Asks c key f vs) (hkeys : Value.allKeys vs = true)
      (hm : lookup memory.state key vs = some m) :
      Does leaf c memory (.ok (.item (.function m.function)), memory)
  | keeps {key : String} {f : NamedFunction} {vs : List Value} (hasks : leaf.Asks c key f vs)
      (hkeys : Value.allKeys vs = true) (hnone : lookup memory.state key vs = none) :
      Does leaf c memory (.ok (.item (.function (bound f vs memory.next).1)),
        ⟨(bound f vs memory.next).2, memory.state ++ [⟨key, vs, (bound f vs memory.next).1⟩]⟩)
  | binds {key : String} {f : NamedFunction} {vs : List Value} (hasks : leaf.Asks c key f vs)
      (hkeys : Value.allKeys vs = false) :
      Does leaf c memory (.ok (.item (.function (bound f vs memory.next).1)),
        ⟨(bound f vs memory.next).2, memory.state⟩)

/-- What has items counts as true when there are any. -/
theorem isTruthy_of_items {v : Value} (h : v.items? = some vs) : v.isTruthy = !vs.isEmpty := by
  cases v <;> simp_all [Value.items?, Value.isTruthy]

theorem does_materialize (hasks : leaf.Asks c key f vs) (settings : Settings)
    (memory : Memory (List Materialization)) :
    leaf.Does c memory ((do return .item (.function (← materialize f key vs)) :
      Resolution (List Materialization) Value) settings memory) := by
  rw [Resolution.bind_apply]
  cases hkeys : Value.allKeys vs with
  | false =>
    have hresult : materialize f key vs settings memory =
        (.ok (bound f vs memory.next).1, ⟨(bound f vs memory.next).2, memory.state⟩) := by
      simp only [materialize, hkeys, Bool.false_eq_true, if_false]
      rfl
    rw [hresult]
    exact .binds hasks hkeys
  | true =>
    cases hm : lookup memory.state key vs with
    | some m =>
      have hresult : materialize f key vs settings memory = (.ok m.function, memory) := by
        rw [lookup] at hm
        simp only [materialize, hkeys, if_true, hm]
      rw [hresult]
      exact .again hasks hkeys hm
    | none =>
      have hresult : materialize f key vs settings memory = (.ok (bound f vs memory.next).1,
          ⟨(bound f vs memory.next).2,
            memory.state ++ [⟨key, vs, (bound f vs memory.next).1⟩]⟩) := by
        rw [lookup] at hm
        simp only [materialize, hkeys, if_true, hm]
        rfl
      rw [hresult]
      exact .keeps hasks hkeys hm

/-- A call that does not come to values for a function fails or gets what the leaf has. -/
theorem does_of_not_asks (hasks : ∀ key f vs, ¬ leaf.Asks c key f vs) (settings : Settings)
    (memory : Memory (List Materialization)) :
    leaf.Does c memory (leaf.resolveName c settings memory) := by
  unfold resolveName Provider.nameText Provider.valueItems
  cases htext : c.name.valuePart? with
  | none => exact .fails hasks .noSuchPart
  | some text =>
    have hcalled : leaf.calledKey c = some (leaf.mode.fold text) := by
      rw [calledKey, htext]
      rfl
    simp only [Failure.ofOption, Resolution.ofExcept_ok, pure_bind]
    cases hitem : leaf.function? (leaf.mode.fold text) with
    | none => exact .fails hasks (.unknown c.name)
    | some item =>
      cases htruthy : c.values.isTruthy with
      | false => exact .asIs hasks hcalled hitem
      | true =>
        cases hvalues : c.values.items? with
        | none => exact .fails hasks .wrongKind
        | some vs =>
          cases item with
          | function f =>
            refine absurd ⟨hcalled, hitem, hvalues, ?_⟩ (hasks _ f vs)
            rintro rfl
            rw [isTruthy_of_items hvalues] at htruthy
            cases htruthy
          | _ => exact .fails hasks .noSuchPart

theorem resolveName_of_asks (hasks : leaf.Asks c key f vs) (settings : Settings)
    (memory : Memory (List Materialization)) :
    leaf.resolveName c settings memory =
      (do return .item (.function (← materialize f key vs)) :
        Resolution (List Materialization) Value) settings memory := by
  obtain ⟨hcalled, hknown, hvalues, hvs⟩ := hasks
  obtain ⟨text, htext, rfl⟩ := Option.map_eq_some_iff.1 hcalled
  have htruthy : c.values.isTruthy = true := by
    rw [isTruthy_of_items hvalues]
    simpa using hvs
  simp only [resolveName, Provider.nameText, Provider.valueItems, htext, hvalues, Failure.ofOption,
    Resolution.ofExcept_ok, pure_bind, hknown, htruthy, if_true]

theorem does_resolveName (leaf : Leaf) (c : Call) (settings : Settings)
    (memory : Memory (List Materialization)) :
    leaf.Does c memory (leaf.resolveName c settings memory) := by
  by_cases hasks : ∃ key f vs, leaf.Asks c key f vs
  · obtain ⟨key, f, vs, hasks⟩ := hasks
    rw [resolveName_of_asks hasks]
    exact does_materialize hasks settings memory
  · exact does_of_not_asks (by simpa using hasks) settings memory

end FunctionCatalog.Leaf
