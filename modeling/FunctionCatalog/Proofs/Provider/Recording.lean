import FunctionCatalog.Proofs.Selector.PostOrder
import FunctionCatalog.Provider.Basic

/-
  FunctionCatalog: what reaches a provider.
  A record of the requests is kept beside the state. It is only added to, so what a computation adds
  does not depend on what was there before (`OnlyNotes`).
-/

namespace FunctionCatalog

namespace Resolution

variable {σ κ α β : Type} {settings : Settings}

/-- The same outcome with a longer record. -/
def after (log : List κ) (r : Except Failure α × Memory (List κ × σ)) :
    Except Failure α × Memory (List κ × σ) :=
  (r.1, ⟨r.2.next, (log ++ r.2.state.1, r.2.state.2)⟩)

/-- The record is added to and never looked at. -/
def OnlyNotes (settings : Settings) (x : Resolution (List κ × σ) α) : Prop :=
  ∀ (next : Nat) (log : List κ) (state : σ),
    x settings ⟨next, (log, state)⟩ = after log (x settings ⟨next, ([], state)⟩)

theorem onlyNotes_noting (k : κ) (x : Resolution σ α) : OnlyNotes settings (noting k x) := by
  intro next log state
  rfl

theorem onlyNotes_pure (a : α) :
    OnlyNotes settings (pure a : Resolution (List κ × σ) α) := by
  intro next log state
  show (Except.ok a, (⟨next, (log, state)⟩ : Memory (List κ × σ))) =
    (Except.ok a, ⟨next, (log ++ [], state)⟩)
  rw [List.append_nil]

theorem OnlyNotes.bind {x : Resolution (List κ × σ) α} {f : α → Resolution (List κ × σ) β}
    (hx : OnlyNotes settings x) (hf : ∀ a, OnlyNotes settings (f a)) :
    OnlyNotes settings (x >>= f) := by
  intro next log state
  rw [bind_apply, bind_apply, hx]
  rcases x settings ⟨next, ([], state)⟩ with ⟨_ | a, ⟨next', log', state'⟩⟩
  · rfl
  · show f a settings ⟨next', (log ++ log', state')⟩ =
      after log (f a settings ⟨next', (log', state')⟩)
    rw [hf a next' (log ++ log'), hf a next' log']
    simp only [after, List.append_assoc]

end Resolution

variable {σ : Type} {settings : Settings} {context : Value}

namespace Parameter

mutual

theorem onlyNotes_walk (resolver : Resolver σ) (settings : Settings) (context : Value) :
    ∀ p : Parameter, Resolution.OnlyNotes settings (p.walk resolver.recording context)
  | .text s => Resolution.onlyNotes_pure (Value.text s)
  | .number n => Resolution.onlyNotes_pure (Value.ofNumber n)
  | .call s arguments =>
    (onlyNotes_walkAll resolver settings context arguments).bind fun values =>
      Resolution.onlyNotes_noting (Call.ofName s.name values context) (resolver _)

theorem onlyNotes_walkAll (resolver : Resolver σ) (settings : Settings) (context : Value) :
    ∀ ps : List Parameter,
      Resolution.OnlyNotes settings (walkAll resolver.recording context ps)
  | [] => Resolution.onlyNotes_pure []
  | p :: ps =>
    (onlyNotes_walk resolver settings context p).bind fun v =>
      (onlyNotes_walkAll resolver settings context ps).bind fun vs =>
        Resolution.onlyNotes_pure (v :: vs)

end

end Parameter

/-- Evaluating a selector with a resolver that is recorded only adds to the record. -/
theorem Selector.onlyNotes_evaluate (resolver : Resolver σ) (settings : Settings) (context : Value)
    (s : Selector) : Resolution.OnlyNotes settings (s.evaluate resolver.recording context) := by
  intro next log state
  cases h : s.parameters settings with
  | error e =>
    rw [evaluate_of_error h, evaluate_of_error h, Resolution.after, List.append_nil]
  | ok ps =>
    have hwalk : ∀ m : Memory (List Call × σ), s.evaluate resolver.recording context settings m =
        (Parameter.call s ps).walk resolver.recording context settings m :=
      Parameter.evaluate_eq_walk (Parameter.reparses_of_parameters h)
    rw [hwalk, hwalk]
    exact Parameter.onlyNotes_walk resolver settings context (.call s ps) next log state

/-! ## Goals that are names -/

namespace Provider

variable {p : Provider σ} {goal values : Value} {n : Name} {m : Memory σ}

theorem ne_selector_of_ofValue {mode : CaseMode} (h : Name.ofValue settings mode goal = .ok n)
    (s : Selector) : goal ≠ .item (.selector s) := by
  rintro rfl
  cases h

/-- A goal that gives a name is asked for under that name, as a numbered object. -/
theorem resolve_of_name {vs : List Value} (h : Name.ofValue settings p.mode goal = .ok n)
    (hvs : values.items? = some vs) :
    p.resolve goal values context settings m =
      p.resolveName (.ofName (n.settle.run m.next).1 vs context) settings
        ⟨(n.settle.run m.next).2, m.state⟩ := by
  unfold resolve
  split
  · exact absurd rfl (ne_selector_of_ofValue h _)
  · simp only [Resolution.settings_bind, h, Resolution.ofExcept_ok, pure_bind,
      Resolution.ofSupply_bind, valueItems, hvs, Failure.ofOption]

/-- Without items for values nothing is asked. -/
theorem resolve_without_items (h : Name.ofValue settings p.mode goal = .ok n)
    (hvs : values.items? = none) :
    p.resolve goal values context settings m =
      (.error .wrongKind, ⟨(n.settle.run m.next).2, m.state⟩) := by
  unfold resolve
  split
  · exact absurd rfl (ne_selector_of_ofValue h _)
  · simp only [Resolution.settings_bind, h, Resolution.ofExcept_ok, pure_bind,
      Resolution.ofSupply_bind, valueItems, hvs, Failure.ofOption, Resolution.ofExcept_error,
      Resolution.fail_bind, Resolution.fail_apply]

/-- A goal that gives no name is refused. -/
theorem resolve_of_error {e : Failure} (hgoal : ∀ s, goal ≠ .item (.selector s))
    (h : Name.ofValue settings p.mode goal = .error e) :
    p.resolve goal values context settings m = (.error e, m) := by
  unfold resolve
  split
  · exact absurd rfl (hgoal _)
  · simp only [Resolution.settings_bind, h, Resolution.ofExcept_error, Resolution.fail_bind,
      Resolution.fail_apply]

/-- A selector brings its own values. -/
theorem resolve_selector (p : Provider σ) (s : Selector) (hvs : values.isTruthy = false)
    (context : Value) :
    p.resolve (.item (.selector s)) values context =
      p.resolveSelector (.item (.selector s)) context := by
  simp only [resolve, hvs, Bool.false_eq_true, if_false]

/-- With values of another kind a selector is refused before anything is asked. -/
theorem exists_resolve_selector_error (p : Provider σ) (s : Selector)
    (hvs : values.isTruthy = true) (context : Value) (settings : Settings) (m : Memory σ) :
    ∃ e, p.resolve (.item (.selector s)) values context settings m = (.error e, m) := by
  unfold resolve
  simp only [hvs, if_true, valueItems]
  cases values.items? with
  | none => exact ⟨.wrongKind, rfl⟩
  | some vs => exact ⟨.selectorValues s vs.length, rfl⟩

end Provider

/-! ## A provider that is watched -/

/-- A request that a provider may receive. -/
inductive Request where
  | name (call : Call)
  | selector (selector context : Value)

/-- A provider that also keeps a record of every request it receives, the last one at the end. -/
def Provider.watched (p : Provider σ) : Provider (List Request × σ) where
  mode := p.mode
  infos := p.infos
  resolveName call := Resolution.noting (.name call) (p.resolveName call)
  resolveSelector selector context :=
    Resolution.noting (.selector selector context) (p.resolveSelector selector context)

end FunctionCatalog
