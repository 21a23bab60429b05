import FunctionCatalog.Proofs.Aggregate.Offers
import FunctionCatalog.Proofs.ItemSet
import FunctionCatalog.Proofs.Provider.Recording
import FunctionCatalog.Provider.View
import Mathlib.Data.List.TakeWhile

/-
  FunctionCatalog: what a filtering view lets through.
  The wrapped provider is only ever asked for declared names, and never for a selector. A goal whose
  own name is not declared is refused before anything is asked; a tree with a name that is not
  declared is walked up to the first such name and no further (`resolve_contained`).
-/

namespace FunctionCatalog

/-! ## Requests behind a guard -/

namespace Resolution

variable {σ ρ : Type} {ask : ρ → Resolution σ Value} {settings : Settings} {m m' : Memory σ}
  {xs : List (ρ × Value)} {f : Option Failure}

theorem Takes.congr {ask' : ρ → Resolution σ Value} (h : Takes ask settings m xs f m')
    (heq : ∀ x ∈ xs, ask x.1 = ask' x.1) : Takes ask' settings m xs f m' := by
  induction h with
  | done m => exact .done m
  | @failed m m' r answer e later h =>
    rw [heq _ List.mem_cons_self] at h
    exact .failed h
  | @answered m₁ m₂ m₃ r answer f later h _ ih =>
    rw [heq _ List.mem_cons_self] at h
    exact .answered h (ih fun x hx => heq x (List.mem_cons_of_mem _ hx))

/-- With a guard the requests are those before the first that it refuses. If none of these fails
the refusal does. -/
theorem Takes.guarded {guard : ρ → Bool} {refusal : ρ → Failure}
    (h : Takes (fun r => if guard r then ask r else fail (refusal r)) settings m xs f m') :
    ∃ g, Takes ask settings m (xs.takeWhile (fun x => guard x.1)) g m' ∧
      f = g.or ((xs.dropWhile (fun x => guard x.1)).head?.map (fun x => refusal x.1)) := by
  have hpos : ∀ {r : ρ} {answer : Value} {later : List (ρ × Value)}, guard r = true →
      ((r, answer) :: later).takeWhile (fun x => guard x.1) =
          (r, answer) :: later.takeWhile (fun x => guard x.1) ∧
        ((r, answer) :: later).dropWhile (fun x => guard x.1) =
          later.dropWhile (fun x => guard x.1) := by
    intro r answer later hr
    exact ⟨List.takeWhile_cons_of_pos hr, List.dropWhile_cons_of_pos hr⟩
  induction h with
  | done m => exact ⟨none, .done m, rfl⟩
  | @failed m m' r answer e later h =>
    by_cases hr : guard r = true
    · rw [if_pos hr] at h
      rw [(hpos hr).1]
      exact ⟨some e, .failed h, rfl⟩
    · rw [if_neg hr, fail_apply] at h
      obtain ⟨he, rfl⟩ := Prod.mk.inj h
      have htake : ((r, answer) :: later).takeWhile (fun x => guard x.1) = [] :=
        List.takeWhile_cons_of_neg hr
      have hdrop : ((r, answer) :: later).dropWhile (fun x => guard x.1) = (r, answer) :: later :=
        List.dropWhile_cons_of_neg hr
      rw [htake, hdrop]
      refine ⟨none, .done m, ?_⟩
      rw [List.head?_cons, Option.map_some, Option.none_or, Except.error.inj he]
  | @answered m₁ m₂ m₃ r answer f later h _ ih =>
    by_cases hr : guard r = true
    · rw [if_pos hr] at h
      obtain ⟨g, hg, hf⟩ := ih
      rw [(hpos hr).1, (hpos hr).2]
      exact ⟨g, .answered h hg, hf⟩
    · rw [if_neg hr, fail_apply] at h
      cases h

end Resolution

namespace FilteredView

variable {σ : Type} {settings : Settings} {context : Value}

/-- Whether a name is in the declared part. -/
def declares (view : FilteredView σ) (n : Name) : Bool :=
  view.infos.set.containsName n.value

/-- Whether a call is for a declared name. -/
def admits (view : FilteredView σ) (c : Call) : Bool :=
  match c.name with
  | .name n => view.declares n
  | _ => false

/-- The view of the same part of a provider that keeps a record of its requests. -/
def watched (view : FilteredView σ) : FilteredView (List Request × σ) :=
  ⟨view.inner.watched, view.infos⟩

theorem resolveName_ofName (view : FilteredView σ) (n : Name) (vs : List Value) (context : Value) :
    view.resolveName (.ofName n vs context) =
      if view.admits (.ofName n vs context) then view.inner.resolveName (.ofName n vs context)
      else .fail (.unknownName (.name n)) :=
  rfl

theorem provider_resolveName (view : FilteredView σ) :
    view.provider.resolveName = view.resolveName :=
  rfl

theorem provider_resolveSelector (view : FilteredView σ) :
    view.provider.resolveSelector = view.resolveSelector :=
  rfl

theorem resolveSelector_selector (view : FilteredView σ) (s : Selector) (context : Value) :
    view.resolveSelector (.item (.selector s)) context =
      if view.declares s.name then s.evaluate view.resolveName context
      else .fail (.unknownName (.name s.name)) :=
  rfl

theorem resolveName_of_declares {view : FilteredView σ} {n : Name} (h : view.declares n = true)
    (vs : List Value) (context : Value) :
    view.resolveName (.ofName n vs context) = view.inner.resolveName (.ofName n vs context) := by
  rw [resolveName_ofName]
  exact if_pos h

theorem resolveName_of_not_declares {view : FilteredView σ} {n : Name}
    (h : view.declares n = false) (vs : List Value) (context : Value) :
    view.resolveName (.ofName n vs context) = .fail (.unknownName (.name n)) := by
  rw [resolveName_ofName]
  exact if_neg (fun htrue => Bool.false_ne_true (h.symm.trans htrue))

/-- What is asked for a tree: the calls before the first that is not for a declared name. -/
theorem takes_of_answered (view : FilteredView σ) {t : Answered} {f : Option Failure}
    {m m' : Memory σ}
    (h : Resolution.Takes view.resolveName settings m (t.calls context) f m') :
    ∃ g, Resolution.Takes view.inner.resolveName settings m
        ((t.calls context).takeWhile (fun x => view.admits x.1)) g m' ∧
      f = g.or (((t.calls context).dropWhile (fun x => view.admits x.1)).head?.map
        (fun x => .unknownName x.1.name)) := by
  have hguarded : Resolution.Takes (fun c => if view.admits c then view.inner.resolveName c
      else .fail (.unknownName c.name)) settings m (t.calls context) f m' := by
    refine h.congr fun x hx => ?_
    obtain ⟨n, vs, hcall⟩ := Answered.exists_ofName_of_mem_calls t hx
    rw [hcall, resolveName_ofName]
    rfl
  exact hguarded.guarded

/-- A tree with a name that is not declared falls apart at the first call for such a name. -/
theorem exists_first_refused (view : FilteredView σ) {t : Answered} (context : Value)
    (h : ∃ n ∈ t.parameter.names, view.declares n = false) :
    ∃ n vs answer after, view.declares n = false ∧
      (t.calls context).dropWhile (fun x => view.admits x.1) =
        (.ofName n vs context, answer) :: after := by
  obtain ⟨n, hn, hdeclares⟩ := h
  have hmem : Value.name n ∈ (t.calls context).map (·.1.name) := by
    rw [Answered.names_calls]
    exact List.mem_map_of_mem hn
  obtain ⟨x, hx, hname⟩ := List.mem_map.1 hmem
  have hrefused : view.admits x.1 = false := by
    rw [admits, hname]
    exact hdeclares
  cases hrest : (t.calls context).dropWhile (fun x => view.admits x.1) with
  | nil =>
    have hall := List.dropWhile_eq_nil_iff.1 hrest x hx
    rw [hrefused] at hall
    exact absurd hall Bool.false_ne_true
  | cons y after =>
    have hy : y ∈ t.calls context :=
      (List.dropWhile_sublist _).subset (hrest ▸ List.mem_cons_self)
    obtain ⟨n', vs, hcall⟩ := Answered.exists_ofName_of_mem_calls t hy
    have hhead : view.admits y.1 = false := by
      have hne : (t.calls context).dropWhile (fun x => view.admits x.1) ≠ [] := by
        rw [hrest]
        exact List.cons_ne_nil _ _
      have hnot := List.head_dropWhile_not (fun x : Call × Value => view.admits x.1) hne
      simpa only [hrest, List.head_cons] using hnot
    obtain ⟨call, answer⟩ := y
    obtain rfl : call = .ofName n' vs context := hcall
    exact ⟨n', vs, answer, after, hhead, rfl⟩

/-! ## The requests that get through -/

variable {next : Nat} {state : σ}

/-- The record holds nothing but calls for declared names. -/
def Contained (view : FilteredView σ) (context : Value) (log : List Request) : Prop :=
  ∃ asked : List Call, log = asked.map .name ∧
    ∀ c ∈ asked, ∃ n vs, c = .ofName n vs context ∧ view.declares n = true

theorem contained_nil (view : FilteredView σ) (context : Value) : view.Contained context [] :=
  ⟨[], rfl, by simp⟩

theorem contained_resolveName (view : FilteredView σ) (n : Name) (vs : List Value)
    (context : Value) (settings : Settings) :
    view.Contained context
      (view.watched.resolveName (.ofName n vs context) settings ⟨next, ([], state)⟩).2.state.1 := by
  cases hn : view.watched.declares n with
  | true =>
    rw [resolveName_of_declares hn]
    refine ⟨[.ofName n vs context], rfl, ?_⟩
    intro c hc
    exact ⟨n, vs, List.mem_singleton.1 hc, hn⟩
  | false =>
    rw [resolveName_of_not_declares hn]
    exact view.contained_nil context

/-- The calls that are noted are a first part of those before the first that is refused. -/
theorem exists_noted (view : FilteredView σ) {t : Answered} {g : Option Failure}
    {m' : Memory (List Request × σ)}
    (h : Resolution.Takes view.watched.inner.resolveName settings ⟨next, ([], state)⟩
      ((t.calls context).takeWhile (fun x => view.admits x.1)) g m') :
    ∃ asked later, m'.state.1 = asked.map .name ∧
      ((t.calls context).takeWhile (fun x => view.admits x.1)).map (·.1) = asked ++ later ∧
      (g = none → later = []) := by
  have hnoted : Resolution.Takes (fun c => Resolution.noting (Request.name c)
      (view.inner.resolveName c)) settings ⟨next, ([], state)⟩ _ g m' := h
  obtain ⟨asked, later, hlog, hsplit, hlater⟩ := hnoted.noted
  exact ⟨asked, later, hlog, hsplit, hlater⟩

theorem contained_of_takes (view : FilteredView σ) {t : Answered} {g : Option Failure}
    {m' : Memory (List Request × σ)}
    (h : Resolution.Takes view.watched.inner.resolveName settings ⟨next, ([], state)⟩
      ((t.calls context).takeWhile (fun x => view.admits x.1)) g m') :
    view.Contained context m'.state.1 := by
  obtain ⟨asked, later, hlog, hsplit, -⟩ := view.exists_noted h
  refine ⟨asked, hlog, fun c hc => ?_⟩
  have hmem : c ∈ ((t.calls context).takeWhile (fun x => view.admits x.1)).map (·.1) := by
    rw [hsplit]
    exact List.mem_append_left later hc
  obtain ⟨x, hx, rfl⟩ := List.mem_map.1 hmem
  have hadmits : view.admits x.1 = true :=
    List.mem_takeWhile_imp (p := fun x : Call × Value => view.admits x.1) hx
  obtain ⟨n, vs, hcall⟩ := Answered.exists_ofName_of_mem_calls t
    ((List.takeWhile_sublist _).subset hx)
  rw [hcall] at hadmits
  exact ⟨n, vs, hcall, hadmits⟩

/-- A tree is walked up to the first name that is not declared. -/
theorem exists_evaluate (view : FilteredView σ) {s : Selector} {ps : List Parameter}
    (h : s.parameters settings = .ok ps) (context : Value) (next : Nat) (state : σ) :
    ∃ (t : Answered) (g : Option Failure) (m' : Memory (List Request × σ)),
      t.parameter = .call s ps ∧
      Resolution.Takes view.watched.inner.resolveName settings ⟨next, ([], state)⟩
        ((t.calls context).takeWhile (fun x => view.admits x.1)) g m' ∧
      s.evaluate view.watched.resolveName context settings ⟨next, ([], state)⟩ =
        (Resolution.outcome t.value
          (g.or (((t.calls context).dropWhile (fun x => view.admits x.1)).head?.map
            (fun x => .unknownName x.1.name))), m') := by
  obtain ⟨t, f, m', ht, htakes, heval⟩ := Selector.exists_takes_evaluate
    view.watched.resolveName h context ⟨next, ([], state)⟩
  obtain ⟨g, hg, rfl⟩ := view.watched.takes_of_answered htakes
  exact ⟨t, g, m', ht, hg, heval⟩

theorem contained_evaluate (view : FilteredView σ) (s : Selector) (context : Value)
    (settings : Settings) :
    view.Contained context
      (s.evaluate view.watched.resolveName context settings ⟨next, ([], state)⟩).2.state.1 := by
  cases h : s.parameters settings with
  | error e =>
    rw [Selector.evaluate_of_error h]
    exact view.contained_nil context
  | ok ps =>
    obtain ⟨t, g, m', -, htakes, heval⟩ := view.exists_evaluate h context next state
    rw [heval]
    exact view.contained_of_takes htakes

/-- A tree is walked in post-order up to the first name that is not declared. The outcome is the
failure of a call before it or else that this name is unknown; what was asked is a first part of the
calls before it, and all of them when none failed. -/
def StopsEarly (view : FilteredView σ) (settings : Settings) (context : Value)
    (start : Memory (List Request × σ)) (p : Parameter)
    (r : Except Failure Value × Memory (List Request × σ)) : Prop :=
  ∃ (t : Answered) (before : List (Call × Value)) (n : Name) (vs : List Value) (answer : Value)
    (after : List (Call × Value)) (failure : Option Failure) (m' : Memory (List Request × σ))
    (asked later : List Call),
    t.parameter = p ∧ t.calls context = before ++ (.ofName n vs context, answer) :: after ∧
    (∀ x ∈ before, view.admits x.1 = true) ∧ view.declares n = false ∧
    Resolution.Takes view.watched.inner.resolveName settings start before failure m' ∧
    before.map (·.1) = asked ++ later ∧ m'.state.1 = asked.map .name ∧
    (failure = none → later = []) ∧
    r = (.error (failure.getD (.unknownName (.name n))), m')

theorem stopsEarly_evaluate (view : FilteredView σ) {s : Selector} {ps : List Parameter}
    (h : s.parameters settings = .ok ps)
    (hnames : ∃ n ∈ (Parameter.call s ps).names, view.declares n = false)
    (context : Value) (next : Nat) (state : σ) :
    view.StopsEarly settings context ⟨next, ([], state)⟩ (.call s ps)
      (s.evaluate view.watched.resolveName context settings ⟨next, ([], state)⟩) := by
  obtain ⟨t, g, m', ht, htakes, heval⟩ := view.exists_evaluate h context next state
  rw [← ht] at hnames
  obtain ⟨n, vs, answer, after, hn, hrest⟩ := view.exists_first_refused context hnames
  obtain ⟨asked, later, hlog, hsplit, hlater⟩ := view.exists_noted htakes
  refine ⟨t, _, n, vs, answer, after, g, m', asked, later, ht, ?_, ?_, hn, htakes, hsplit, hlog,
    hlater, ?_⟩
  · rw [← hrest]
    exact List.takeWhile_append_dropWhile.symm
  · intro x hx
    exact List.mem_takeWhile_imp (p := fun x : Call × Value => view.admits x.1) hx
  · rw [heval, hrest]
    cases g with
    | none => rfl
    | some e => rfl

/-- Whatever is asked of the view, only calls for declared names reach the wrapped provider. -/
theorem contained_resolve (view : FilteredView σ) (goal values context : Value)
    (settings : Settings) :
    view.Contained context
      (view.watched.provider.resolve goal values context settings
        ⟨next, ([], state)⟩).2.state.1 := by
  by_cases hgoal : ∃ s, goal = .item (.selector s)
  · obtain ⟨s, rfl⟩ := hgoal
    cases hvs : values.isTruthy with
    | true =>
      obtain ⟨e, he⟩ := view.watched.provider.exists_resolve_selector_error s hvs context settings
        ⟨next, ([], state)⟩
      rw [he]
      exact view.contained_nil context
    | false =>
      rw [Provider.resolve_selector _ s hvs, provider_resolveSelector, resolveSelector_selector]
      split
      · exact view.contained_evaluate s context settings
      · exact view.contained_nil context
  · have hother : ∀ s, goal ≠ .item (.selector s) := fun s heq => hgoal ⟨s, heq⟩
    cases hn : Name.ofValue settings view.watched.provider.mode goal with
    | error e =>
      rw [Provider.resolve_of_error hother hn]
      exact view.contained_nil context
    | ok n =>
      cases hitems : values.items? with
      | none =>
        rw [Provider.resolve_without_items hn hitems]
        exact view.contained_nil context
      | some vs =>
        rw [Provider.resolve_of_name hn hitems]
        exact view.contained_resolveName _ vs context settings

theorem exists_ofValue_of_canTake {mode : CaseMode} {n : Name} (h : n.CanTake settings mode) :
    ∃ n', Name.ofValue settings mode (.name n) = .ok n' ∧ n'.value = n.value ∧ n'.mode = mode := by
  by_cases hmode : n.mode = mode
  · have hwith : n.withMode settings mode = .ok n := by rw [Name.withMode, if_pos hmode]
    refine ⟨n, ?_, rfl, hmode⟩
    simp only [Name.ofValue, hwith, Rejection.ofName_ok]
    rfl
  · have hwith : n.withMode settings mode = .ok (n.inMode mode) := by
      rw [Name.withMode, if_neg hmode, Name.make_of_fits (h.resolve_left hmode)]
    refine ⟨n.inMode mode, ?_, rfl, rfl⟩
    simp only [Name.ofValue, hwith, Rejection.ofName_ok]
    rfl

theorem ofValue_of_not_canTake {mode : CaseMode} {n : Name} (h : ¬ n.CanTake settings mode) :
    Name.ofValue settings mode (.name n) =
      .error (.rejection (.name (n.lengthError settings))) := by
  simp only [Name.ofValue, Name.withMode_of_not_canTake h]
  rfl

/-- From an empty record on, nothing but calls for declared names reaches the wrapped provider,
whatever is asked of the view. A goal whose own name is not declared is unknown and nothing is
asked; every name can be such a goal that is in the mode of the view or no longer than is allowed,
and any other name is refused for its length before anything is asked. A selector whose own name is
declared and some nested name is not stops at the first such name. -/
theorem resolve_contained (view : FilteredView σ) (settings : Settings) (context : Value)
    (next : Nat) (state : σ) :
    (∀ goal values, view.Contained context
      (view.watched.provider.resolve goal values context settings
        ⟨next, ([], state)⟩).2.state.1) ∧
    (∀ n : Name, n.CanTake settings view.inner.mode →
      ∃ n', Name.ofValue settings view.inner.mode (.name n) = .ok n' ∧ n'.value = n.value ∧
        n'.mode = view.inner.mode) ∧
    (∀ n : Name, ¬ n.CanTake settings view.inner.mode → ∀ values,
      view.watched.provider.resolve (.name n) values context settings ⟨next, ([], state)⟩ =
        (.error (.rejection (.name (n.lengthError settings))), ⟨next, ([], state)⟩)) ∧
    (∀ goal values n vs, Name.ofValue settings view.inner.mode goal = .ok n →
      values.items? = some vs → view.declares n = false →
      ∃ n' next', n'.alike n = true ∧
        view.watched.provider.resolve goal values context settings ⟨next, ([], state)⟩ =
          (.error (.unknownName (.name n')), ⟨next', ([], state)⟩)) ∧
    (∀ s values, values.isTruthy = false → view.declares s.name = false →
      view.watched.provider.resolve (.item (.selector s)) values context settings
          ⟨next, ([], state)⟩ =
        (.error (.unknownName (.name s.name)), ⟨next, ([], state)⟩)) ∧
    (∀ s values ps, values.isTruthy = false → s.parameters settings = .ok ps →
      view.declares s.name = true → (∃ n ∈ Parameter.namesAll ps, view.declares n = false) →
      view.StopsEarly settings context ⟨next, ([], state)⟩ (.call s ps)
        (view.watched.provider.resolve (.item (.selector s)) values context settings
          ⟨next, ([], state)⟩)) := by
  refine ⟨fun goal values => view.contained_resolve goal values context settings,
    fun n h => exists_ofValue_of_canTake h, fun n h values => ?_, ?_, ?_, ?_⟩
  · have hgoal : ∀ s, Value.name n ≠ .item (.selector s) := fun s => nofun
    exact Provider.resolve_of_error hgoal (ofValue_of_not_canTake h)
  · intro goal values n vs hn hitems hdeclares
    have halike := Name.alike_settle n next
    have hother : view.watched.declares (n.settle.run next).1 = false := by
      unfold declares at hdeclares ⊢
      rw [Name.value_of_alike halike]
      exact hdeclares
    refine ⟨(n.settle.run next).1, (n.settle.run next).2, halike, ?_⟩
    have hgoal : Name.ofValue settings view.watched.provider.mode goal = .ok n := hn
    rw [Provider.resolve_of_name hgoal hitems, provider_resolveName,
      resolveName_of_not_declares hother]
    rfl
  · intro s values hvs hdeclares
    rw [Provider.resolve_selector _ s hvs, provider_resolveSelector, resolveSelector_selector,
      if_neg]
    · rfl
    · exact fun htrue => Bool.false_ne_true (hdeclares.symm.trans htrue)
  · intro s values ps hvs hps hdeclares hnames
    obtain ⟨n, hn, hother⟩ := hnames
    have hmem : n ∈ (Parameter.call s ps).names := by
      rw [Parameter.names]
      exact List.mem_append_left _ hn
    rw [Provider.resolve_selector _ s hvs, provider_resolveSelector, resolveSelector_selector,
      if_pos]
    · exact view.stopsEarly_evaluate hps ⟨n, hmem, hother⟩ context next state
    · exact hdeclares

/-- A view that declares the names B and a of a provider that answers any call with its name. -/
def lettered : FilteredView Unit where
  inner := .ofNames .sensitive (.empty .infos .sensitive) (fun call => pure call.name)
  infos := (Aggregate.letters .sensitive).asItems

/-- The selector of a name and a list in which the name b stands behind a declared one. -/
def nesting (name : String) (h : isName name.toList = true) : Selector where
  name := { value := name, mode := .sensitive, isName_value := h }
  valueText := "(a, B(a, b(a)), 1)"
  isSeparated_valueText := by decide

theorem resolve_contained_lettered :
    lettered.watched.provider.resolve
        (.name { value := "abcd", mode := .insensitive, isName_value := by decide }) (.list [])
        .null { nameLimit := 3 } ⟨0, ([], ())⟩ =
      (.error (.rejection (.name ⟨"abcd", 3, .tooLong 4 3⟩)), ⟨0, ([], ())⟩) ∧
    (∃ n' next', lettered.watched.provider.resolve (.text "b") (.list [.int 1]) .null {}
      ⟨0, ([], ())⟩ = (.error (.unknownName (.name n')), ⟨next', ([], ())⟩)) ∧
    lettered.watched.provider.resolve (.item (.selector (nesting "b" (by decide)))) (.list []) .null
        {} ⟨0, ([], ())⟩ =
      (.error (.unknownName (.name (nesting "b" (by decide)).name)), ⟨0, ([], ())⟩) ∧
    ∃ ps, (nesting "a" (by decide)).parameters {} = .ok ps ∧
      lettered.StopsEarly {} .null ⟨0, ([], ())⟩ (.call (nesting "a" (by decide)) ps)
        (lettered.watched.provider.resolve (.item (.selector (nesting "a" (by decide)))) (.list [])
          .null {} ⟨0, ([], ())⟩) := by
  obtain ⟨-, -, hlong, -⟩ := lettered.resolve_contained { nameLimit := 3 } .null 0 ()
  obtain ⟨-, -, -, hname, hunknown, hnested⟩ := lettered.resolve_contained {} .null 0 ()
  refine ⟨hlong _ (by decide) _, ?_, hunknown _ _ rfl (by decide), ?_⟩
  · obtain ⟨n', next', -, hresolve⟩ := hname (.text "b") (.list [.int 1])
      { value := "b", mode := .sensitive, isName_value := by decide } [.int 1] rfl rfl (by decide)
    exact ⟨n', next', hresolve⟩
  · have hread : (match (nesting "a" (by decide)).parameters {} with
        | .ok ps => (Parameter.namesAll ps).any (fun n => !lettered.declares n)
        | .error _ => false) = true := by
      decide +kernel
    cases hps : (nesting "a" (by decide)).parameters {} with
    | error e =>
      rw [hps] at hread
      cases hread
    | ok ps =>
      rw [hps] at hread
      obtain ⟨n, hn, hother⟩ := List.any_eq_true.1 hread
      exact ⟨ps, rfl, hnested _ _ _ rfl hps (by decide) ⟨n, hn, by simpa using hother⟩⟩

/-- A name of another mode that has become too long is refused before it is looked up. -/
theorem overlong_goal_is_rejected :
    ∃ n : Name, Name.make {} "abcd" .sensitive = .ok n ∧
      ∃ view : FilteredView Unit, view.declares n = false ∧
        view.provider.resolve (.name n) (.list []) .null { nameLimit := 3 } ⟨0, ()⟩ =
          (.error (.rejection (.name ⟨"abcd", 3, .tooLong 4 3⟩)), ⟨0, ()⟩) :=
  ⟨{ value := "abcd", mode := .sensitive, isName_value := by decide }, by decide,
    ⟨.empty .insensitive, .empty .infos .insensitive⟩, rfl, rfl⟩

end FilteredView

end FunctionCatalog
