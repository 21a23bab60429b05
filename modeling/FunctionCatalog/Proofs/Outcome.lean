/-
  FunctionCatalog: steps that may fail.
  When a chain of steps succeeds, so does each of its steps.
-/

namespace FunctionCatalog

variable {ε ε' α β : Type}

theorem exists_of_isOk {x : Except ε α} (h : x.isOk = true) : ∃ a, x = .ok a := by
  cases x with
  | error e => cases h
  | ok a => exact ⟨a, rfl⟩

theorem eq_ok_of_isOk {x : Except ε α} (h : x.isOk = true) (a : α) : x = .ok (x.toOption.getD a) := by
  cases x with
  | error e => cases h
  | ok b => rfl

theorem exists_of_bind_ok {x : Except ε α} {f : α → Except ε β} {b : β}
    (h : x >>= f = .ok b) : ∃ a, x = .ok a ∧ f a = .ok b := by
  cases x with
  | error e => cases h
  | ok a => exact ⟨a, rfl, h⟩

/-- When a chain of steps fails, its first step does or what follows it. -/
theorem error_of_bind_error {x : Except ε α} {f : α → Except ε β} {e : ε}
    (h : x >>= f = .error e) : x = .error e ∨ ∃ a, x = .ok a ∧ f a = .error e := by
  cases x with
  | error e' => exact .inl (congrArg Except.error (Except.error.inj h))
  | ok a => exact .inr ⟨a, rfl, h⟩

theorem exists_of_map_ok {x : Except ε α} {f : α → β} {b : β}
    (h : x.map f = .ok b) : ∃ a, x = .ok a ∧ f a = b := by
  cases x with
  | error e => cases h
  | ok a => exact ⟨a, rfl, Except.ok.inj h⟩

theorem exists_of_toOption_map {x : Except ε α} {f : α → β} {b : β}
    (h : x.toOption.map f = some b) : ∃ a, x = .ok a ∧ f a = b := by
  cases x with
  | error e => cases h
  | ok a => exact ⟨a, rfl, Option.some.inj h⟩

theorem error_of_map_error {x : Except ε α} {f : α → β} {e : ε} (h : x.map f = .error e) :
    x = .error e := by
  cases x with
  | error e' => exact congrArg Except.error (Except.error.inj h)
  | ok a => cases h

theorem ok_of_mapError_ok {x : Except ε α} {f : ε → ε'} {a : α}
    (h : x.mapError f = .ok a) : x = .ok a := by
  cases x with
  | error e => cases h
  | ok b => exact congrArg Except.ok (Except.ok.inj h)

section Steps

variable {f : α → Except ε β} {xs : List α} {ys : List β}

/-- Where all steps together succeed each of them does. -/
theorem exists_of_mapM_ok (h : xs.mapM f = .ok ys) : ∀ x ∈ xs, ∃ y ∈ ys, f x = .ok y := by
  induction xs generalizing ys with
  | nil => exact fun x hx => absurd hx List.not_mem_nil
  | cons x xs ih =>
    rw [List.mapM_cons] at h
    obtain ⟨y, hy, h⟩ := exists_of_bind_ok h
    obtain ⟨zs, hzs, h⟩ := exists_of_bind_ok h
    obtain rfl := Except.ok.inj h
    intro w hw
    rcases List.mem_cons.1 hw with rfl | hw
    · exact ⟨y, List.mem_cons_self, hy⟩
    · obtain ⟨z, hz, hwz⟩ := ih hzs w hw
      exact ⟨z, List.mem_cons_of_mem y hz, hwz⟩

/-- Each result of steps that all succeed is that of one of them. -/
theorem exists_of_mem_mapM (h : xs.mapM f = .ok ys) : ∀ y ∈ ys, ∃ x ∈ xs, f x = .ok y := by
  induction xs generalizing ys with
  | nil =>
    cases h
    exact fun y hy => absurd hy List.not_mem_nil
  | cons x xs ih =>
    rw [List.mapM_cons] at h
    obtain ⟨y, hy, h⟩ := exists_of_bind_ok h
    obtain ⟨zs, hzs, h⟩ := exists_of_bind_ok h
    obtain rfl := Except.ok.inj h
    intro w hw
    rcases List.mem_cons.1 hw with rfl | hw
    · exact ⟨x, List.mem_cons_self, hy⟩
    · obtain ⟨v, hv, hvw⟩ := ih hzs w hw
      exact ⟨v, List.mem_cons_of_mem x hv, hvw⟩

end Steps

/-- Steps fail as the first one that fails. -/
theorem mapM_eq_error {f : α → Except ε β} {as bs : List α} {x : α} {e : ε}
    (has : ∀ a ∈ as, ∃ b, f a = .ok b) (hx : f x = .error e) :
    (as ++ x :: bs).mapM f = .error e := by
  induction as with
  | nil =>
    rw [List.nil_append, List.mapM_cons, hx]
    rfl
  | cons a as ih =>
    obtain ⟨b, hb⟩ := has a List.mem_cons_self
    rw [List.cons_append, List.mapM_cons, hb, ih fun c hc => has c (List.mem_cons_of_mem a hc)]
    rfl

/-- Steps that all succeed give all their results. -/
theorem mapM_eq_ok_map {f : α → Except ε β} {g : α → β} {xs : List α}
    (h : ∀ x ∈ xs, f x = .ok (g x)) : xs.mapM f = .ok (xs.map g) := by
  induction xs with
  | nil => rfl
  | cons x xs ih =>
    rw [List.mapM_cons, h x List.mem_cons_self,
      ih (fun y hy => h y (List.mem_cons_of_mem x hy))]
    rfl

/-- A selection whose questions are all answered. -/
theorem filterM_map_eq_ok {f : β → Except ε Bool} {g : α → β} {p : α → Bool} {xs : List α}
    (h : ∀ x ∈ xs, f (g x) = .ok (p x)) : (xs.map g).filterM f = .ok ((xs.filter p).map g) := by
  have haux : ∀ acc, (xs.map g).filterAuxM f acc = .ok (((xs.filter p).map g).reverse ++ acc) := by
    induction xs with
    | nil => exact fun acc => rfl
    | cons x xs ih =>
      intro acc
      have hrest := ih fun y hy => h y (List.mem_cons_of_mem x hy)
      rw [List.map_cons, List.filterAuxM, h x List.mem_cons_self]
      show (xs.map g).filterAuxM f (cond (p x) (g x :: acc) acc) = _
      rw [hrest]
      cases hp : p x <;> simp [hp]
  show ((xs.map g).filterAuxM f [] >>= fun ys => pure ys.reverse) = _
  rw [haux, List.append_nil]
  exact congrArg Except.ok (List.reverse_reverse _)

end FunctionCatalog
