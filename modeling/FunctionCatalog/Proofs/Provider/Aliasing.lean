import FunctionCatalog.Proofs.Aggregate.Offers
import FunctionCatalog.Proofs.Provider.Recording
import FunctionCatalog.Provider.View

/-
  FunctionCatalog: what an alias set lets through.
  The calls that reach the wrapped provider fall into blocks, one for each name that is visited. The
  block of an alias is what the wrapped provider asks itself for the target, so a target and the
  names in it are never looked up among the aliases again (`resolve_confined`).
-/

namespace FunctionCatalog.AliasView

variable {σ : Type} {settings settings₀ : Settings} {context : Value} {aliases : ItemSet}
  {wrapped : Provider (List Call × σ)}

/-- What comes of a name that is visited with some values: the calls that reach the wrapped
provider, which keeps a record of them, and its result. A forwarded name is one call with the same
name and values. An alias without values stands for its target, which the wrapped provider resolves
in the same context. With values it is refused, and so is a name without an entry. -/
inductive Visit (settings : Settings) (context : Value) (aliases : ItemSet)
    (wrapped : Provider (List Call × σ)) (n : Name) (vs : List Value) :
    Memory σ → List Call → Except Failure Value → Memory σ → Prop
  | forwarded {i : Item} {m m' : Memory σ} {r : Except Failure Value}
      (hentry : aliases.set.get? n.value = some i) (htarget : i.target = .ok none)
      (h : wrapped.resolveName (.ofName n vs context) settings ⟨m.next, ([], m.state)⟩ =
        (r, ⟨m'.next, ([.ofName n vs context], m'.state)⟩)) :
      Visit settings context aliases wrapped n vs m [.ofName n vs context] r m'
  | target {i : Item} {s : Selector} {m m' : Memory σ} {block : List Call}
      {r : Except Failure Value} (hentry : aliases.set.get? n.value = some i)
      (htarget : i.target = .ok (some s)) (hvs : vs = [])
      (h : wrapped.resolve (.item (.selector s)) (.list []) context settings
        ⟨m.next, ([], m.state)⟩ = (r, ⟨m'.next, (block, m'.state)⟩)) :
      Visit settings context aliases wrapped n vs m block r m'
  | arguments {i : Item} {s : Selector} (m : Memory σ)
      (hentry : aliases.set.get? n.value = some i) (htarget : i.target = .ok (some s))
      (hvs : vs ≠ []) :
      Visit settings context aliases wrapped n vs m [] (.error (.aliasArguments (.name n) vs)) m
  | unknown (m : Memory σ) (hentry : aliases.set.get? n.value = none) :
      Visit settings context aliases wrapped n vs m [] (.error (.unknownName (.name n))) m

/-- The names of the calls are visited one after another, up to the first that fails. Each visit has
its block of calls, and its result is the answer to the call. -/
inductive Visits (settings : Settings) (context : Value) (aliases : ItemSet)
    (wrapped : Provider (List Call × σ)) :
    Memory σ → List (Call × Value) → List (List Call) → Option Failure → Memory σ → Prop
  | done (m : Memory σ) : Visits settings context aliases wrapped m [] [] none m
  | failed {n : Name} {vs : List Value} {answer : Value} {later : List (Call × Value)}
      {m m' : Memory σ} {block : List Call} {e : Failure}
      (h : Visit settings context aliases wrapped n vs m block (.error e) m') :
      Visits settings context aliases wrapped m ((.ofName n vs context, answer) :: later) [block]
        (some e) m'
  | answered {n : Name} {vs : List Value} {answer : Value} {later : List (Call × Value)}
      {m₁ m₂ m₃ : Memory σ} {block : List Call} {blocks : List (List Call)} {f : Option Failure}
      (h : Visit settings context aliases wrapped n vs m₁ block (.ok answer) m₂)
      (hlater : Visits settings context aliases wrapped m₂ later blocks f m₃) :
      Visits settings context aliases wrapped m₁ ((.ofName n vs context, answer) :: later)
        (block :: blocks) f m₃

/-! ## A single name -/

/-- A view that could be made has a target, or none, at each of its entries. -/
theorem eq_of_make {inner : Provider σ} {view : AliasView σ}
    (h : make settings₀ aliases inner = .ok view) :
    view.aliases = aliases ∧ view.inner = inner ∧
      ∀ i ∈ aliases.entries, ∃ t, i.target = .ok t := by
  obtain ⟨infos, hmerge, hview⟩ := exists_of_bind_ok h
  obtain rfl := Except.ok.inj hview
  refine ⟨rfl, rfl, fun i hi => ?_⟩
  obtain ⟨shown, hshown, -⟩ := exists_of_bind_ok hmerge
  obtain ⟨found, -, hfound⟩ := exists_of_mapM_ok hshown i hi
  obtain ⟨t, ht, -⟩ := exists_of_bind_ok hfound
  exact ⟨t, ht⟩

section Entry

variable {view : AliasView σ} {n : Name} {i : Item} {s : Selector}

theorem resolveName_of_none (hentry : view.aliases.set.get? n.value = none) (vs : List Value)
    (context : Value) :
    view.resolveName (.ofName n vs context) = .fail (.unknownName (.name n)) := by
  simp only [resolveName, Call.ofName, ItemSet.lookup_name, hentry, Resolution.ofExcept_ok,
    pure_bind]
  rfl

theorem resolveName_of_forwarded (hentry : view.aliases.set.get? n.value = some i)
    (htarget : i.target = .ok none) (vs : List Value) (context : Value) :
    view.resolveName (.ofName n vs context) =
      view.inner.resolveName (.ofName n vs context) := by
  simp only [resolveName, Call.ofName, ItemSet.lookup_name, hentry, htarget,
    Resolution.ofExcept_ok, pure_bind]

theorem resolveName_of_target (hentry : view.aliases.set.get? n.value = some i)
    (htarget : i.target = .ok (some s)) (context : Value) :
    view.resolveName (.ofName n [] context) =
      view.inner.resolveSelector (.item (.selector s)) context := by
  simp only [resolveName, Call.ofName, ItemSet.lookup_name, hentry, htarget,
    Resolution.ofExcept_ok, pure_bind]
  rfl

theorem resolveName_of_arguments (hentry : view.aliases.set.get? n.value = some i)
    (htarget : i.target = .ok (some s)) {vs : List Value} (hvs : vs ≠ []) (context : Value) :
    view.resolveName (.ofName n vs context) = .fail (.aliasArguments (.name n) vs) := by
  obtain ⟨v, vs, rfl⟩ := List.exists_cons_of_ne_nil hvs
  simp only [resolveName, Call.ofName, ItemSet.lookup_name, hentry, htarget,
    Resolution.ofExcept_ok, pure_bind]
  rfl

end Entry

variable {mode : CaseMode} {infos : ItemSet} {resolver : Resolver σ}
  {view : AliasView (List Call × σ)}

/-- A call of the view is a visit, whatever has been noted before it. -/
theorem exists_visit
    (hview : make settings₀ aliases (.ofNames mode infos resolver.recording) = .ok view)
    (settings : Settings) (context : Value) (n : Name) (vs : List Value) (m : Memory σ)
    (log : List Call) :
    ∃ block r m',
      Visit settings context aliases (.ofNames mode infos resolver.recording) n vs m block r m' ∧
      view.resolveName (.ofName n vs context) settings ⟨m.next, (log, m.state)⟩ =
        (r, ⟨m'.next, (log ++ block, m'.state)⟩) := by
  obtain ⟨rfl, hinner, htargets⟩ := eq_of_make hview
  cases hentry : view.aliases.set.get? n.value with
  | none =>
    refine ⟨[], _, m, .unknown m hentry, ?_⟩
    rw [resolveName_of_none hentry, Resolution.fail_apply, List.append_nil]
  | some i =>
    obtain ⟨t, ht⟩ := htargets i (List.mem_of_find?_eq_some hentry)
    cases t with
    | none =>
      rw [resolveName_of_forwarded hentry ht, hinner]
      exact ⟨[.ofName n vs context], _, ⟨_, _⟩, .forwarded hentry ht rfl, rfl⟩
    | some s =>
      by_cases hvs : vs = []
      · subst hvs
        have hnotes := Selector.onlyNotes_evaluate resolver settings context s m.next log m.state
        rcases heval : s.evaluate resolver.recording context settings ⟨m.next, ([], m.state)⟩ with
          ⟨r, ⟨next, block, state⟩⟩
        rw [heval] at hnotes
        rw [resolveName_of_target hentry ht, hinner]
        refine ⟨block, r, ⟨next, state⟩, .target hentry ht rfl ?_, hnotes⟩
        rw [Provider.resolve_selector _ s rfl]
        exact heval
      · refine ⟨[], _, m, .arguments m hentry ht hvs, ?_⟩
        rw [resolveName_of_arguments hentry ht hvs, Resolution.fail_apply, List.append_nil]

/-! ## The names of a tree -/

/-- Calls of the view one after another are visits, and the record grows by their blocks. -/
theorem exists_visits
    (hview : make settings₀ aliases (.ofNames mode infos resolver.recording) = .ok view)
    {xs : List (Call × Value)} {f : Option Failure} {m m' : Memory (List Call × σ)}
    (h : Resolution.Takes view.resolveName settings m xs f m')
    (hxs : ∀ x ∈ xs, ∃ n vs, x.1 = .ofName n vs context) :
    ∃ blocks,
      Visits settings context aliases (.ofNames mode infos resolver.recording)
        ⟨m.next, m.state.2⟩ xs blocks f ⟨m'.next, m'.state.2⟩ ∧
      m'.state.1 = m.state.1 ++ blocks.flatten := by
  induction h with
  | done m => exact ⟨[], .done _, (List.append_nil _).symm⟩
  | @failed m m' call answer e later h =>
    obtain ⟨n, vs, rfl⟩ : ∃ n vs, call = .ofName n vs context := hxs _ List.mem_cons_self
    obtain ⟨block, r, m₁, hvisit, heq⟩ := exists_visit hview settings context n vs
      ⟨m.next, m.state.2⟩ m.state.1
    obtain ⟨hr, rfl⟩ := Prod.mk.inj (heq.symm.trans h)
    subst hr
    refine ⟨[block], .failed hvisit, ?_⟩
    rw [List.flatten_singleton]
  | @answered m₁ m₂ m₃ call answer f later h _ ih =>
    obtain ⟨n, vs, rfl⟩ : ∃ n vs, call = .ofName n vs context := hxs _ List.mem_cons_self
    obtain ⟨block, r, m, hvisit, heq⟩ := exists_visit hview settings context n vs
      ⟨m₁.next, m₁.state.2⟩ m₁.state.1
    obtain ⟨hr, rfl⟩ := Prod.mk.inj (heq.symm.trans h)
    subst hr
    obtain ⟨blocks, hvisits, hlog⟩ := ih fun x hx => hxs x (List.mem_cons_of_mem _ hx)
    refine ⟨block :: blocks, .answered hvisit hvisits, ?_⟩
    rw [hlog, List.flatten_cons, List.append_assoc]

/-- A view over a provider that answers selectors by its answers for names asks it, from an empty
record on, in blocks, one for each name that is visited. For a selector these are the names of its
tree in post-order, for a name it is that name alone, and for what gives no name there is none. -/
theorem resolve_confined
    (hview : make settings₀ aliases (.ofNames mode infos resolver.recording) = .ok view)
    (settings : Settings) (context : Value) (next : Nat) (state : σ) :
    (∀ s ps values, values.isTruthy = false → s.parameters settings = .ok ps →
      ∃ (t : Answered) (blocks : List (List Call)) (failure : Option Failure) (m' : Memory σ),
        t.parameter = .call s ps ∧
        Visits settings context aliases (.ofNames mode infos resolver.recording) ⟨next, state⟩
          (t.calls context) blocks failure m' ∧
        view.provider.resolve (.item (.selector s)) values context settings ⟨next, ([], state)⟩ =
          (Resolution.outcome t.value failure, ⟨m'.next, (blocks.flatten, m'.state)⟩)) ∧
    (∀ goal values n vs, Name.ofValue settings mode goal = .ok n → values.items? = some vs →
      ∃ n' next' block r m', n'.alike n = true ∧
        Visit settings context aliases (.ofNames mode infos resolver.recording) n' vs
          ⟨next', state⟩ block r m' ∧
        view.provider.resolve goal values context settings ⟨next, ([], state)⟩ =
          (r, ⟨m'.next, (block, m'.state)⟩)) ∧
    (∀ goal values e, (∀ s, goal ≠ .item (.selector s)) →
      Name.ofValue settings mode goal = .error e →
      view.provider.resolve goal values context settings ⟨next, ([], state)⟩ =
        (.error e, ⟨next, ([], state)⟩)) := by
  have hmode : view.provider.mode = mode := by
    obtain ⟨-, hinner, -⟩ := eq_of_make hview
    show view.inner.mode = mode
    rw [hinner]
    rfl
  refine ⟨?_, ?_, ?_⟩
  · intro s ps values hvs hps
    obtain ⟨t, failure, m', ht, htakes, heval⟩ := Selector.exists_takes_evaluate view.resolveName
      hps context ⟨next, ([], state)⟩
    obtain ⟨blocks, hvisits, hlog⟩ := exists_visits hview htakes
      (fun x hx => Answered.exists_ofName_of_mem_calls t hx)
    obtain ⟨next', log, state'⟩ := m'
    obtain rfl : log = blocks.flatten := hlog
    refine ⟨t, blocks, failure, ⟨next', state'⟩, ht, hvisits, ?_⟩
    rw [Provider.resolve_selector _ s hvs]
    exact heval
  · intro goal values n vs hn hvs
    obtain ⟨block, r, m', hvisit, heq⟩ := exists_visit hview settings context
      (n.settle.run next).1 vs ⟨(n.settle.run next).2, state⟩ []
    refine ⟨_, _, block, r, m', n.alike_settle next, hvisit, ?_⟩
    rw [← hmode] at hn
    rw [Provider.resolve_of_name hn hvs]
    exact heq
  · intro goal values e hgoal he
    rw [← hmode] at he
    exact Provider.resolve_of_error hgoal he

/-- Aliases whose names are those of targets: b stands for a selector with the names of all three. -/
def clashing : ItemSet :=
  match AliasSet.parse {} .sensitive "a, b B(b, a, 1), B a" with
  | .ok s => s.asItems
  | .error _ => .empty .aliases .sensitive

/-- Answers any call with its name. -/
def nameOf : Resolver Unit := fun call => pure call.name

/-- A tree with a forwarded name, two aliases and an unknown name. -/
def visiting : Selector where
  name := Aggregate.lowerA.name
  valueText := "(b, B, a(2), c)"
  isSeparated_valueText := by decide

theorem resolve_confined_clashing :
    ∃ view ps, make {} clashing
        (.ofNames .sensitive (Aggregate.letters .sensitive).asItems nameOf.recording) = .ok view ∧
      visiting.parameters {} = .ok ps ∧
      ∃ (t : Answered) (blocks : List (List Call)) (failure : Option Failure) (m' : Memory Unit),
        t.parameter = .call visiting ps ∧
        Visits {} .null clashing
          (.ofNames .sensitive (Aggregate.letters .sensitive).asItems nameOf.recording) ⟨0, ()⟩
          (t.calls .null) blocks failure m' ∧
        view.provider.resolve (.item (.selector visiting)) (.list []) .null {} ⟨0, ([], ())⟩ =
          (Resolution.outcome t.value failure, ⟨m'.next, (blocks.flatten, m'.state)⟩) := by
  have hmade : (make {} clashing (.ofNames .sensitive (Aggregate.letters .sensitive).asItems
      nameOf.recording)).isOk = true := by
    decide +kernel
  have hread : (visiting.parameters {}).isOk = true := by
    decide +kernel
  obtain ⟨view, hview⟩ := exists_of_isOk hmade
  obtain ⟨ps, hps⟩ := exists_of_isOk hread
  exact ⟨view, ps, hview, hps,
    (resolve_confined hview {} .null 0 ()).1 visiting ps (.list []) rfl hps⟩

end FunctionCatalog.AliasView
