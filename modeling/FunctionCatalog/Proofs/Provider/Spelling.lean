import FunctionCatalog.Proofs.Provider.Assembled
import FunctionCatalog.Proofs.Value.Bare

/-
  FunctionCatalog: names that a provider does not tell apart.
  An assembled provider folds every name in its own mode before it looks it up, and the way that the
  name is written shows in nothing but the labels of answers: two spellings get functions of one
  operation with the same values bound to them, or fail alike (`Provider.Assembled.ignoresSpelling`).
-/

namespace FunctionCatalog

variable {α β σ ι : Type} {settings : Settings} {context : Value}

/-! ## Outcomes that agree -/

/-- Two outcomes agree if both are values that are related, or failures of one kind. -/
inductive Agree (R : α → β → Prop) : Except Failure α → Except Failure β → Prop
  | ok {a : α} {b : β} (h : R a b) : Agree R (.ok a) (.ok b)
  | error {e f : Failure} (h : e.word = f.word) : Agree R (.error e) (.error f)

namespace Agree

variable {γ : Type} {R : α → β → Prop} {S : β → γ → Prop} {x : Except Failure α}
  {y : Except Failure β} {z : Except Failure γ}

theorem imp {R' : α → β → Prop} (h : Agree R x y) (himp : ∀ a b, R a b → R' a b) :
    Agree R' x y := by
  cases h with
  | ok h => exact .ok (himp _ _ h)
  | error h => exact .error h

theorem symm (h : Agree R x y) : Agree (fun b a => R a b) y x := by
  cases h with
  | ok h => exact .ok h
  | error h => exact .error h.symm

theorem trans (h : Agree R x y) (h' : Agree S y z) :
    Agree (fun a c => ∃ b, R a b ∧ S b c) x z := by
  cases h with
  | ok h =>
    cases h' with
    | ok h' => exact .ok ⟨_, h, h'⟩
  | error h =>
    cases h' with
    | error h' => exact .error (h.trans h')

/-- An outcome agrees with itself if its value is related to itself. -/
theorem refl {R : α → α → Prop} {x : Except Failure α} (h : ∀ a, x = .ok a → R a a) :
    Agree R x x := by
  cases x with
  | ok a => exact .ok (h a rfl)
  | error e => exact .error rfl

theorem exists_of_isOk (h : Agree R x y) (hx : x.isOk = true) :
    ∃ a b, x = .ok a ∧ y = .ok b ∧ R a b := by
  cases h with
  | ok h => exact ⟨_, _, rfl, rfl, h⟩
  | error => cases hx

end Agree

/-! ## Functions with the same values -/

namespace Value

/-- Functions of one operation to which the same values are bound. They may have different names. -/
def BindsAlike (v w : Value) : Prop :=
  ∃ f g : NamedFunction, v = .item (.function f) ∧ w = .item (.function g) ∧
    f.operation = g.operation ∧ bareAll f.parameters = bareAll g.parameters

theorem BindsAlike.refl (f : NamedFunction) :
    BindsAlike (.item (.function f)) (.item (.function f)) :=
  ⟨f, f, rfl, rfl, rfl, rfl⟩

theorem BindsAlike.symm {v w : Value} (h : BindsAlike v w) : BindsAlike w v := by
  obtain ⟨f, g, rfl, rfl, hoperation, hvalues⟩ := h
  exact ⟨g, f, rfl, rfl, hoperation.symm, hvalues.symm⟩

theorem BindsAlike.trans {u v w : Value} (h : BindsAlike u v) (h' : BindsAlike v w) :
    BindsAlike u w := by
  obtain ⟨f, g, rfl, rfl, hoperation, hvalues⟩ := h
  obtain ⟨g', k, heq, rfl, hoperation', hvalues'⟩ := h'
  obtain rfl : g = g' := by simpa using heq
  exact ⟨f, k, rfl, rfl, hoperation.trans hoperation', hvalues.trans hvalues'⟩

end Value

theorem NamedFunction.withName_eq (n : Name) (f : NamedFunction) :
    (f.withName n).operation = f.operation ∧ (f.withName n).parameters = f.parameters := by
  unfold withName
  split
  · exact ⟨rfl, rfl⟩
  · exact ⟨rfl, rfl⟩

theorem NamedFunction.bindsAlike_of_bare {f g : NamedFunction} (h : f.bare = g.bare) :
    Value.BindsAlike (.item (.function f)) (.item (.function g)) := by
  obtain ⟨m, o, vs, k⟩ := f
  obtain ⟨n, p, ws, l⟩ := g
  simp only [bare, mk.injEq] at h
  exact ⟨_, _, rfl, rfl, h.2.1, h.2.2.1⟩

/-- A new name leaves the operation and the values. -/
theorem NamedFunction.bindsAlike_withName (n : Name) (f : NamedFunction) (next : Nat) :
    Value.BindsAlike (.item (.function ((f.withName n).settle.run next).1))
      (.item (.function f)) := by
  obtain ⟨hoperation, hvalues⟩ := f.withName_eq n
  refine (bindsAlike_of_bare (bare_settle _ next)).trans ⟨_, f, rfl, rfl, hoperation, ?_⟩
  rw [hvalues]

namespace Provider

/-- A provider that does not tell names apart that are equal under its mode: they get functions of
one operation with the same values bound to them, or fail alike. -/
def IgnoresSpelling (p : Provider σ) : Prop :=
  ∀ ⦃settings : Settings⦄ ⦃n₁ n₂ : Name⦄ ⦃vs : List Value⦄ ⦃context : Value⦄ ⦃m : Memory σ⦄,
    p.mode.fold n₁.value = p.mode.fold n₂.value →
    Agree Value.BindsAlike (p.resolveName (.ofName n₁ vs context) settings m).1
      (p.resolveName (.ofName n₂ vs context) settings m).1

namespace Functional

variable {p : Provider σ} {m : Memory σ}

theorem agree_self (hp : p.Functional) (n : Name) (vs : List Value) :
    Agree Value.BindsAlike (p.resolveName (.ofName n vs context) settings m).1
      (p.resolveName (.ofName n vs context) settings m).1 := by
  refine .refl fun v hv => ?_
  obtain ⟨f, rfl⟩ := hp.name hv
  exact .refl f

theorem agree_of_eq (hp : p.Functional) {n₁ n₂ : Name} {vs : List Value}
    (h : p.resolveName (.ofName n₁ vs context) = p.resolveName (.ofName n₂ vs context)) :
    Agree Value.BindsAlike (p.resolveName (.ofName n₁ vs context) settings m).1
      (p.resolveName (.ofName n₂ vs context) settings m).1 := by
  rw [h]
  exact hp.agree_self n₂ vs

theorem bindsAlike_relabel (hp : p.Functional) (wrapped n : Name) (vs : List Value) :
    Agree Value.BindsAlike (p.relabel wrapped (.ofName n vs context) settings m).1
      (p.resolveName (.ofName wrapped vs context) settings m).1 := by
  rcases h : p.resolveName (.ofName wrapped vs context) settings m with ⟨e | found, m'⟩
  · rw [relabel_of_error h]
    exact .error rfl
  · obtain ⟨f, rfl⟩ := hp.name (congrArg Prod.fst h)
    rw [relabel_of_ok h]
    exact .ok (f.bindsAlike_withName n m'.next)

/-- An answer under one of two new names. -/
theorem agree_relabel (hp : p.Functional) (wrapped n₁ n₂ : Name) (vs : List Value) :
    Agree Value.BindsAlike (p.relabel wrapped (.ofName n₁ vs context) settings m).1
      (p.relabel wrapped (.ofName n₂ vs context) settings m).1 := by
  refine ((hp.bindsAlike_relabel wrapped n₁ vs).trans
    (hp.bindsAlike_relabel wrapped n₂ vs).symm).imp ?_
  rintro v w ⟨u, hu, hw⟩
  exact hu.trans hw.symm

end Functional

end Provider

/-! ## Leaves, views and aggregates -/

section Layers

variable {n₁ n₂ : Name} {inner : Provider σ}

theorem Leaf.ignoresSpelling {leaf : Leaf} (hleaf : leaf.provider.Functional) :
    leaf.provider.IgnoresSpelling := by
  intro settings n₁ n₂ vs context m hn
  have hfold : leaf.mode.fold n₁.value = leaf.mode.fold n₂.value := hn
  show Agree _ (leaf.resolveName (.ofName n₁ vs context) settings m).1
    (leaf.resolveName (.ofName n₂ vs context) settings m).1
  cases hitem : leaf.function? (leaf.mode.fold n₂.value) with
  | none =>
    rw [resolveName_of_none hitem, resolveName_of_none (hfold ▸ hitem)]
    exact .error rfl
  | some item =>
    refine hleaf.agree_of_eq ?_
    show leaf.resolveName (.ofName n₁ vs context) = leaf.resolveName (.ofName n₂ vs context)
    cases vs with
    | nil => rw [resolveName_nil hitem, resolveName_nil (hfold ▸ hitem)]
    | cons v vs =>
      have hfound : ∀ m, (leaf.provider.resolveName (.ofName n₂ [] context) settings m).1 =
          .ok (.item item) := by
        intro m
        show (leaf.resolveName (.ofName n₂ [] context) settings m).1 = _
        rw [resolveName_nil hitem]
        rfl
      obtain ⟨f, hf⟩ := hleaf.name (hfound m)
      obtain rfl : item = .function f := by simpa using hf
      rw [resolveName_cons hitem, resolveName_cons (hfold ▸ hitem), hfold]

theorem AliasView.ignoresSpelling {aliases : ItemSet} {view : AliasView σ}
    (h : make settings aliases inner = .ok view) (hmode : aliases.mode = inner.mode)
    (hview : view.provider.Functional) (hinner : inner.IgnoresSpelling) :
    view.provider.IgnoresSpelling := by
  obtain ⟨-, heq, -⟩ := eq_of_make h
  intro settings n₁ n₂ vs context m hn
  replace hn : inner.mode.fold n₁.value = inner.mode.fold n₂.value := heq ▸ hn
  have hget := get?_of_fold h hmode hn
  show Agree _ (view.resolveName (.ofName n₁ vs context) settings m).1
    (view.resolveName (.ofName n₂ vs context) settings m).1
  rcases lookup_cases h n₂ with hentry | ⟨i, hentry, ht⟩ | ⟨i, s, hentry, ht⟩
  · rw [resolveName_of_none hentry, resolveName_of_none (hget.trans hentry)]
    exact .error rfl
  · rw [resolveName_of_forwarded hentry ht, resolveName_of_forwarded (hget.trans hentry) ht, heq]
    exact hinner hn
  · cases vs with
    | nil =>
      refine hview.agree_of_eq ?_
      show view.resolveName (.ofName n₁ [] context) = view.resolveName (.ofName n₂ [] context)
      rw [resolveName_of_target hentry ht, resolveName_of_target (hget.trans hentry) ht]
    | cons v vs =>
      have hvs := List.cons_ne_nil v vs
      rw [resolveName_of_arguments hentry ht hvs,
        resolveName_of_arguments (hget.trans hentry) ht hvs]
      exact .error rfl

theorem FilteredView.ignoresSpelling {infos : ItemSet} (hmode : infos.mode = inner.mode)
    (hinner : inner.IgnoresSpelling) : (FilteredView.mk inner infos).provider.IgnoresSpelling := by
  intro settings n₁ n₂ vs context m hn
  have hdeclares : (FilteredView.mk inner infos).declares n₁ =
      (FilteredView.mk inner infos).declares n₂ := declares_of_fold hmode hn
  rw [provider_resolveName]
  cases hn₂ : (FilteredView.mk inner infos).declares n₂ with
  | true =>
    rw [resolveName_of_declares hn₂, resolveName_of_declares (hdeclares.trans hn₂)]
    exact hinner hn
  | false =>
    rw [resolveName_of_not_declares hn₂, resolveName_of_not_declares (hdeclares.trans hn₂)]
    exact .error rfl

theorem Renaming.ignoresSpelling {names : NameTable} {resolver : Resolver σ}
    (h : Renaming inner names resolver) (hinner : inner.Functional) (infos : ItemSet) :
    (Provider.ofNames inner.mode infos resolver).IgnoresSpelling := by
  intro settings n₁ n₂ vs context m hn
  replace hn : inner.mode.fold n₁.value = inner.mode.fold n₂.value := hn
  show Agree _ (resolver (.ofName n₁ vs context) settings m).1
    (resolver (.ofName n₂ vs context) settings m).1
  cases hget : names.get? (inner.mode.fold n₂.value) with
  | none =>
    rw [h.unknown hget, h.unknown (hn ▸ hget)]
    exact .error rfl
  | some wrapped =>
    rw [h.found hget, h.found (hn ▸ hget)]
    exact hinner.agree_relabel wrapped n₁ n₂ vs

theorem Aggregate.ignoresSpelling {a : Aggregate σ} (ha : a.provider.Functional) :
    a.provider.IgnoresSpelling := by
  intro settings n₁ n₂ vs context m hn
  have hfold : a.mode.fold n₁.value = a.mode.fold n₂.value := hn
  cases hfind : a.owned.find? (fun o => o.key == a.mode.fold n₂.value) with
  | none =>
    show Agree _ (a.resolveName (.ofName n₁ vs context) settings m).1
      (a.resolveName (.ofName n₂ vs context) settings m).1
    rw [resolveName_of_find, resolveName_of_find, hfold, hfind]
    exact .error rfl
  | some o =>
    refine ha.agree_of_eq ?_
    show a.resolveName (.ofName n₁ vs context) = a.resolveName (.ofName n₂ vs context)
    rw [resolveName_of_find, resolveName_of_find, hfold, hfind]

end Layers

/-- However it is nested, an assembled provider does not tell names apart that are equal under its
mode. -/
theorem Provider.Assembled.ignoresSpelling [DecidableEq ι] {T : Selector → Prop}
    {Q : Stores ι → Prop} {leaves : ι → Leaf} {p : Provider (Stores ι)}
    (h : p.Assembled T Q leaves) : p.IgnoresSpelling := by
  have hfunctional := h.functional
  induction h with
  | leaf i hleaf =>
    intro settings n₁ n₂ vs context m hn
    exact Leaf.ignoresSpelling (Leaf.functional_of_make hleaf) hn
  | empty mode => exact fun _ _ _ _ _ _ _ => .error rfl
  | aliasView hinner hmode _ h ih =>
    exact AliasView.ignoresSpelling h hmode hfunctional (ih hinner.functional)
  | @filteredView infos inner hinner hmode ih =>
    have hitems : infos.asItems.mode = inner.mode := hmode
    exact FilteredView.ignoresSpelling hitems (ih hinner.functional)
  | renamedView hinner hmode h _ =>
    obtain ⟨rfl, -⟩ := RenamedView.mode_of_make h
    exact (RenamedView.renaming _).ignoresSpelling hinner.functional _
  | mergedView hinner hmode h _ =>
    obtain ⟨rfl, -⟩ := MergedView.mode_of_make h
    exact (MergedView.renaming _).ignoresSpelling hinner.functional _
  | aggregating _ _ _ _ => exact Aggregate.ignoresSpelling hfunctional
  | numbered next hp ih => exact ih hp.functional

end FunctionCatalog
