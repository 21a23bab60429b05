import FunctionCatalog.Proofs.Provider.Assembled
import FunctionCatalog.Proofs.Provider.Recording

/-
  FunctionCatalog: what is handed out under another name.
  A view that looks names up in a table passes a name on as a single request for the name that it
  finds there, and hands what comes of it out under the name that it was asked for (`Relays`). A
  name that is not in the table is refused before anything is requested (`Refuses`).
-/

namespace FunctionCatalog

variable {σ : Type}

/-! ## Functions under another name -/

namespace NamedFunction

/-- A function with this operation and these parameters under the name; parameters that had no
number may have one now. -/
structure IsUnder (n : Name) (o : Operation) (vs : List Value) (g : NamedFunction) : Prop where
  name : n.alike g.name = true
  operation : g.operation = o
  parameters : ∃ next, g.parameters = ((Value.settleAll vs).run next).1

theorem isUnder_settle {n : Name} {f : NamedFunction} (h : n.alike f.name = true) (next : Nat) :
    IsUnder n f.operation f.parameters (f.settle.run next).1 := by
  obtain ⟨m, o, vs, handle⟩ := f
  exact ⟨h, rfl, _, rfl⟩

theorem isUnder_withName (n : Name) (f : NamedFunction) (next : Nat) :
    IsUnder n f.operation f.parameters ((f.withName n).settle.run next).1 := by
  have hname : n.alike (f.withName n).name = true := Name.alike_keep NamedFunction.name rfl
  have hparts : (f.withName n).operation = f.operation ∧
      (f.withName n).parameters = f.parameters := by
    unfold withName
    split <;> exact ⟨rfl, rfl⟩
  have hunder := isUnder_settle hname next
  rwa [hparts.1, hparts.2] at hunder

end NamedFunction

/-! ## One request -/

/-- What is handed out under a name for what a provider answers: a function with the same operation
and the same parameters, a function without parameters for a bare operation, and a failure as it
is. -/
structure Relabelled (n : Name) (found result : Except Failure Value) : Prop where
  failed : ∀ e, found = .error e → result = .error e
  function : ∀ f, found = .ok (.item (.function f)) →
    ∃ g, result = .ok (.item (.function g)) ∧ g.IsUnder n f.operation f.parameters
  operation : ∀ o, found = .ok (.operation o) →
    ∃ g, result = .ok (.item (.function g)) ∧ g.IsUnder n o []

/-- The resolver answers the name by a single request to the provider, for the wrapped name with the
same values and the same context, and hands out under the name what comes of it. -/
def Relays (inner : Provider σ) (resolver : Resolver (List Request × σ)) (n wrapped : Name) : Prop :=
  ∀ (vs : List Value) (context : Value) (settings : Settings) (next : Nat) (log : List Request)
    (state : σ), ∃ found next₁ state' result next',
      inner.resolveName (.ofName wrapped vs context) settings ⟨next, state⟩ =
        (found, ⟨next₁, state'⟩) ∧
      resolver (.ofName n vs context) settings ⟨next, (log, state)⟩ =
        (result, ⟨next', (log ++ [.name (.ofName wrapped vs context)], state')⟩) ∧
      Relabelled n found result

/-- The resolver does not know the name and requests nothing for it. -/
def Refuses (resolver : Resolver (List Request × σ)) (n : Name) : Prop :=
  ∀ (vs : List Value) (context : Value) (settings : Settings) (m : Memory (List Request × σ)),
    resolver (.ofName n vs context) settings m = (.error (.unknownName (.name n)), m)

section Tables

variable {inner : Provider σ} {resolver : Resolver (List Request × σ)} {names : NameTable}
  {n wrapped : Name}

theorem relabelled_of_relabel (settings : Settings) (n : Name) (v : Value) (next : Nat) :
    Relabelled n (.ok v) ((v.relabel settings (.name n)).map fun w => (w.settle.run next).1) where
  failed e h := nomatch h
  function f h := by
    obtain rfl := Except.ok.inj h
    exact ⟨_, rfl, NamedFunction.isUnder_withName n f next⟩
  operation o h := by
    obtain rfl := Except.ok.inj h
    exact ⟨_, rfl, NamedFunction.isUnder_settle (f := .make n o []) n.alike_refl next⟩

/-- Relabelling what a watched provider answers is one request. -/
theorem relabel_watched (inner : Provider σ) (n wrapped : Name) (vs : List Value)
    (context : Value) (settings : Settings) (next : Nat) (log : List Request) (state : σ) :
    ∃ found next₁ state' result next',
      inner.resolveName (.ofName wrapped vs context) settings ⟨next, state⟩ =
        (found, ⟨next₁, state'⟩) ∧
      inner.watched.relabel wrapped (.ofName n vs context) settings ⟨next, (log, state)⟩ =
        (result, ⟨next', (log ++ [.name (.ofName wrapped vs context)], state')⟩) ∧
      Relabelled n found result := by
  obtain ⟨found, ⟨next₁, state'⟩, hfound⟩ : ∃ found m', inner.resolveName
      (.ofName wrapped vs context) settings ⟨next, state⟩ = (found, m') := ⟨_, _, rfl⟩
  have hwatched : inner.watched.resolveName (.ofName wrapped vs context) settings
      ⟨next, (log, state)⟩ =
        (found, ⟨next₁, (log ++ [.name (.ofName wrapped vs context)], state')⟩) := by
    show (Resolution.noting _ (inner.resolveName _)) settings _ = _
    simp only [Resolution.noting, hfound]
  have hrelabel : inner.watched.relabel wrapped (.ofName n vs context) =
      (inner.watched.resolveName (.ofName wrapped vs context) >>= fun v => do
        let settings ← Resolution.settings
        Resolution.ofSupply (← Resolution.ofExcept (v.relabel settings (.name n))).settle) := rfl
  rw [hrelabel, Resolution.bind_apply, hwatched]
  cases found with
  | error e =>
    exact ⟨.error e, next₁, state', .error e, next₁, hfound, rfl,
      ⟨fun _ h => h, fun _ h => (nomatch h), fun _ h => (nomatch h)⟩⟩
  | ok v =>
    have hresult := relabelled_of_relabel settings n v next₁
    cases hv : v.relabel settings (.name n) with
    | error e =>
      rw [hv] at hresult
      refine ⟨.ok v, next₁, state', .error e, next₁, hfound, ?_, hresult⟩
      simp only [Resolution.settings_bind, hv]
      rfl
    | ok w =>
      rw [hv] at hresult
      refine ⟨.ok v, next₁, state', .ok (w.settle.run next₁).1, (w.settle.run next₁).2, hfound, ?_,
        hresult⟩
      simp only [Resolution.settings_bind, hv]
      rfl

theorem relays_of_relabel (h : ∀ vs context, resolver (.ofName n vs context) =
    inner.watched.relabel wrapped (.ofName n vs context)) : Relays inner resolver n wrapped := by
  intro vs context settings next log state
  rw [h]
  exact relabel_watched inner n wrapped vs context settings next log state

theorem Renaming.relays (h : Renaming inner.watched names resolver)
    (hfound : names.get? (inner.mode.fold n.value) = some wrapped) :
    Relays inner resolver n wrapped :=
  relays_of_relabel fun vs context => h.found hfound vs context

theorem Renaming.refuses (h : Renaming inner.watched names resolver)
    (hnone : names.get? (inner.mode.fold n.value) = none) : Refuses resolver n := by
  intro vs context settings m
  rw [h.unknown hnone]
  rfl

end Tables

end FunctionCatalog
