import FunctionCatalog.Provider.Resolution

/-
  FunctionCatalog: resolutions one after another.
  Several requests are answered in turn until one fails. A computation gives what comes of them if
  its outcome and its memory are those of asking them in this order and nothing else.
-/

namespace FunctionCatalog.Resolution

variable {σ ρ α β : Type} {ask : ρ → Resolution σ Value} {settings : Settings}

theorem bind_apply (x : Resolution σ α) (f : α → Resolution σ β) (m : Memory σ) :
    (x >>= f) settings m =
      match x settings m with
      | (.ok a, m') => f a settings m'
      | (.error e, m') => (.error e, m') :=
  rfl

/-- When a chain of steps succeeds, so does each of its steps. -/
theorem exists_of_bind_ok {x : Resolution σ α} {f : α → Resolution σ β} {m m' : Memory σ} {b : β}
    (h : (x >>= f) settings m = (.ok b, m')) :
    ∃ a m₁, x settings m = (.ok a, m₁) ∧ f a settings m₁ = (.ok b, m') := by
  rw [bind_apply] at h
  rcases hx : x settings m with ⟨e | a, m₁⟩
  · rw [hx] at h
    cases h
  · rw [hx] at h
    exact ⟨a, m₁, rfl, h⟩

section Steps

variable {m : Memory σ} {a : α} {e : Failure}

@[simp] theorem settings_bind (f : Settings → Resolution σ β) :
    (Resolution.settings >>= f) settings m = f settings settings m :=
  rfl

@[simp] theorem ofSupply_bind (x : Supply α) (f : α → Resolution σ β) :
    (ofSupply x >>= f) settings m = f (x.run m.next).1 settings ⟨(x.run m.next).2, m.state⟩ :=
  rfl

@[simp] theorem ofExcept_ok : (ofExcept (.ok a) : Resolution σ α) = pure a :=
  rfl

@[simp] theorem ofExcept_error : (ofExcept (.error e) : Resolution σ α) = fail e :=
  rfl

@[simp] theorem fail_bind (f : α → Resolution σ β) : ((fail e : Resolution σ α) >>= f) = fail e :=
  rfl

@[simp] theorem fail_apply : (fail e : Resolution σ α) settings m = (.error e, m) :=
  rfl

end Steps

/-- The requests are asked one after another and have these answers, up to the first that fails; no
request after that one is asked. -/
inductive Takes (ask : ρ → Resolution σ Value) (settings : Settings) :
    Memory σ → List (ρ × Value) → Option Failure → Memory σ → Prop
  | done (m : Memory σ) : Takes ask settings m [] none m
  | failed {m m' : Memory σ} {request : ρ} {answer : Value} {e : Failure}
      {later : List (ρ × Value)} (h : ask request settings m = (.error e, m')) :
      Takes ask settings m ((request, answer) :: later) (some e) m'
  | answered {m₁ m₂ m₃ : Memory σ} {request : ρ} {answer : Value} {f : Option Failure}
      {later : List (ρ × Value)} (h : ask request settings m₁ = (.ok answer, m₂))
      (hlater : Takes ask settings m₂ later f m₃) :
      Takes ask settings m₁ ((request, answer) :: later) f m₃

/-- What comes of requests that lead to a value unless one of them fails. -/
def outcome (a : α) : Option Failure → Except Failure α
  | none => .ok a
  | some e => .error e

section Takes

variable {m m₁ m₂ m' : Memory σ} {xs ys : List (ρ × Value)} {f : Option Failure} {e : Failure}

theorem Takes.append (hx : Takes ask settings m₁ xs none m₂) (hy : Takes ask settings m₂ ys f m') :
    Takes ask settings m₁ (xs ++ ys) f m' := by
  generalize hnone : (none : Option Failure) = g at hx
  induction hx with
  | done => exact hy
  | failed => cases hnone
  | answered h _ ih => exact .answered h (ih hy hnone)

theorem Takes.append_of_failed (h : Takes ask settings m xs (some e) m')
    (ys : List (ρ × Value)) : Takes ask settings m (xs ++ ys) (some e) m' := by
  generalize hsome : some e = g at h
  induction h with
  | done => cases hsome
  | failed h => exact .failed h
  | answered h _ ih => exact .answered h (ih hsome)

/-- A failure is that of a request. -/
theorem Takes.exists_failed (h : Takes ask settings m xs (some e) m') :
    ∃ x ∈ xs, ∃ m₁, (ask x.1 settings m₁).1 = .error e := by
  generalize hsome : some e = g at h
  induction h with
  | done => cases hsome
  | @failed m m' request answer e' later h =>
    cases hsome
    exact ⟨(request, answer), List.mem_cons_self, m, by rw [h]⟩
  | answered h _ ih =>
    obtain ⟨x, hx, hask⟩ := ih hsome
    exact ⟨x, List.mem_cons_of_mem _ hx, hask⟩

/-- Where no request fails each of them has its answer. -/
theorem Takes.exists_answered (h : Takes ask settings m xs none m') :
    ∀ x ∈ xs, ∃ m₁ m₂, ask x.1 settings m₁ = (.ok x.2, m₂) := by
  generalize hnone : (none : Option Failure) = g at h
  induction h with
  | done => exact fun x hx => absurd hx List.not_mem_nil
  | failed => cases hnone
  | @answered m₁ m₂ m₃ request answer f later h _ ih =>
    intro x hx
    rcases List.mem_cons.1 hx with rfl | hx
    · exact ⟨m₁, m₂, h⟩
    · exact ih hnone x hx

end Takes

/-- Outcome `r` and memory `m'` are those of asking the requests from `m` on, with the value `a`
when none fails. -/
def Gives (ask : ρ → Resolution σ Value) (settings : Settings) (m : Memory σ)
    (requests : List (ρ × Value)) (a : α) (r : Except Failure α × Memory σ) : Prop :=
  ∃ f m', Takes ask settings m requests f m' ∧ r = (outcome a f, m')

variable {a : α} {b : β} {m : Memory σ} {requests : List (ρ × Value)} {x : Resolution σ α}
  {g : α → Resolution σ β}

/-- A step and what follows it. The requests of the second are only known once the first has ended;
where it fails any requests may stand for them. -/
theorem Gives.exists_bind {ι : Type} {P : ι → Prop} {later : ι → List (ρ × Value)} {b : ι → β}
    (hx : Gives ask settings m requests a (x settings m)) (hP : ∃ i, P i)
    (hg : ∀ m', ∃ i, P i ∧ Gives ask settings m' (later i) (b i) (g a settings m')) :
    ∃ i, P i ∧ Gives ask settings m (requests ++ later i) (b i) ((x >>= g) settings m) := by
  obtain ⟨_ | e, m', htakes, hx⟩ := hx
  · obtain ⟨i, hi, f, m'', hlater, hg⟩ := hg m'
    refine ⟨i, hi, f, m'', htakes.append hlater, ?_⟩
    rw [bind_apply, hx]
    exact hg
  · obtain ⟨i, hi⟩ := hP
    refine ⟨i, hi, some e, m', htakes.append_of_failed (later i), ?_⟩
    rw [bind_apply, hx]
    rfl

theorem Gives.map (h : Gives ask settings m requests a (x settings m)) (k : α → β) :
    Gives ask settings m requests (k a)
      ((do let a ← x; pure (k a) : Resolution σ β) settings m) := by
  obtain ⟨f, m', htakes, hx⟩ := h
  refine ⟨f, m', htakes, ?_⟩
  rw [bind_apply, hx]
  cases f <;> rfl

theorem gives_pure (a : α) (m : Memory σ) :
    Gives ask settings m [] a ((pure a : Resolution σ α) settings m) :=
  ⟨none, m, .done m, rfl⟩

/-- A single request, with its own answer or, where it fails, with any. -/
theorem exists_gives_ask (ask : ρ → Resolution σ Value) (settings : Settings) (request : ρ)
    (m : Memory σ) :
    ∃ answer, True ∧
      Gives ask settings m [(request, answer)] answer (ask request settings m) := by
  rcases h : ask request settings m with ⟨e | answer, m'⟩
  · exact ⟨.null, trivial, some e, m', .failed h, rfl⟩
  · exact ⟨answer, trivial, none, m', .answered h (.done m'), rfl⟩

/-! ## A record of the requests -/

/-- What is noted at the end of a record when a resolution is carried out. -/
def noting {κ : Type} (k : κ) (x : Resolution σ α) : Resolution (List κ × σ) α :=
  fun settings m =>
    let (r, m') := x settings ⟨m.next, m.state.2⟩
    (r, ⟨m'.next, (m.state.1 ++ [k], m'.state)⟩)

/-- The record grows by the requests up to the first failure, and by all when there is none. -/
theorem Takes.noted {κ : Type} {note : ρ → κ} {m m' : Memory (List κ × σ)}
    {xs : List (ρ × Value)} {f : Option Failure}
    (h : Takes (fun r => noting (note r) (ask r)) settings m xs f m') :
    ∃ asked later, m'.state.1 = m.state.1 ++ asked.map note ∧ xs.map (·.1) = asked ++ later ∧
      (f = none → later = []) := by
  induction h with
  | done m => exact ⟨[], [], by simp⟩
  | @failed m m' r answer e later h =>
    obtain ⟨-, rfl⟩ := Prod.mk.inj h
    exact ⟨[r], later.map (·.1), rfl, rfl, by simp⟩
  | @answered m₁ m₂ m₃ r answer f later h hlater ih =>
    obtain ⟨-, rfl⟩ := Prod.mk.inj h
    obtain ⟨asked, rest, hlog, hsplit, hrest⟩ := ih
    exact ⟨r :: asked, rest, by simp [hlog], by simp [hsplit], hrest⟩

end FunctionCatalog.Resolution
