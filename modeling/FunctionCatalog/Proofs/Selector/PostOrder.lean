import FunctionCatalog.Proofs.Resolution
import FunctionCatalog.Proofs.Selector.Grammar
import FunctionCatalog.Selector.Evaluate

/-
  FunctionCatalog: evaluation as one walk.
  Evaluating a selector reads the text of every nested selector again when its turn comes. The
  result is that of reading the whole text once and walking over the tree: the resolver is asked
  for the nodes in post-order, from left to right, until it fails on one (`evaluate_postOrder`).
-/

namespace FunctionCatalog

variable {σ : Type} {resolver : Resolver σ} {settings : Settings} {context : Value}

/-- The resolver is asked for a name once the values of its parameters are there. -/
def Resolver.ask (resolver : Resolver σ) (name : Name) (context : Value)
    (values : Resolution σ (List Value)) : Resolution σ Value := do
  resolver (.ofName name (← values) context)

theorem Resolver.ask_congr {name : Name} {x y : Resolution σ (List Value)} {m : Memory σ}
    (h : x settings m = y settings m) :
    resolver.ask name context x settings m = resolver.ask name context y settings m := by
  rw [ask, ask, Resolution.bind_apply, Resolution.bind_apply, h]

/-! ## A walk over the tree -/

namespace Parameter

mutual

/-- The value of a parameter when the tree is taken as it is and no text is read again. -/
def walk (resolver : Resolver σ) (context : Value) : Parameter → Resolution σ Value
  | .text s => pure (.text s)
  | .number n => pure (.ofNumber n)
  | .call s arguments => resolver.ask s.name context (walkAll resolver context arguments)

def walkAll (resolver : Resolver σ) (context : Value) :
    List Parameter → Resolution σ (List Value)
  | [] => pure []
  | p :: ps => do
    let v ← walk resolver context p
    let vs ← walkAll resolver context ps
    pure (v :: vs)

end

/-- The value of a parameter when the text of a nested selector is read again. -/
def evaluate (resolver : Resolver σ) (context : Value) : Parameter → Resolution σ Value
  | .text s => pure (.text s)
  | .number n => pure (.ofNumber n)
  | .call s _ => s.evaluate resolver context

end Parameter

namespace Selector

variable {s : Selector} {ps : List Parameter}

theorem evaluate_of_parameters (h : s.parameters settings = .ok ps) (m : Memory σ) :
    s.evaluate resolver context settings m =
      resolver.ask s.name context (ps.mapM (Parameter.evaluate resolver context)) settings m := by
  rw [Selector.evaluate]
  split
  · next e he => rw [h] at he; cases he
  · next qs hqs =>
    rw [h] at hqs
    cases hqs
    refine congrArg (fun values => resolver.ask s.name context values settings m) ?_
    rw [List.mapM_subtype (g := Parameter.evaluate resolver context), List.unattach_attach]
    intro p hp
    cases p <;> rfl

theorem evaluate_of_error {e : Rejection} (h : s.parameters settings = .error e) (m : Memory σ) :
    s.evaluate resolver context settings m = (.error (.rejection e), m) := by
  rw [Selector.evaluate]
  split
  · next e' he =>
    rw [h] at he
    cases he
    rfl
  · next ps hps => rw [h] at hps; cases hps

end Selector

namespace Parameter

theorem mapM_evaluate {ps : List Parameter}
    (h : ∀ p ∈ ps, ∀ m : Memory σ,
      p.evaluate resolver context settings m = p.walk resolver context settings m)
    (m : Memory σ) :
    ps.mapM (evaluate resolver context) settings m = walkAll resolver context ps settings m := by
  induction ps generalizing m with
  | nil => rfl
  | cons p ps ih =>
    rw [List.mapM_cons, walkAll, Resolution.bind_apply, Resolution.bind_apply,
      h p List.mem_cons_self m]
    rcases p.walk resolver context settings m with ⟨_ | v, m'⟩
    · rfl
    · dsimp only
      rw [Resolution.bind_apply, Resolution.bind_apply,
        ih (fun q hq => h q (List.mem_cons_of_mem p hq)) m']

/-- Where the nested selectors read as they stand, reading them again changes nothing. -/
theorem evaluate_eq_walk {mode : CaseMode} {p : Parameter} (h : Reparses settings mode p)
    (m : Memory σ) :
    p.evaluate resolver context settings m = p.walk resolver context settings m := by
  induction h generalizing m with
  | text s => rfl
  | number n => rfl
  | @call s arguments _ hread _ ih =>
    rw [evaluate, Selector.evaluate_of_parameters hread, walk]
    exact Resolver.ask_congr (mapM_evaluate ih m)

end Parameter

/-! ## What the resolver is asked -/

/-- A parameter with an answer at each of its names. -/
inductive Answered where
  | text (s : String)
  | number (n : Number)
  | call (selector : Selector) (arguments : List Answered) (answer : Value)

namespace Answered

mutual

/-- The parameter that was answered. -/
def parameter : Answered → Parameter
  | .text s => .text s
  | .number n => .number n
  | .call s arguments _ => .call s (parameters arguments)

def parameters : List Answered → List Parameter
  | [] => []
  | t :: ts => t.parameter :: parameters ts

end

/-- The value of a literal is the literal, that of a name its answer. -/
def value : Answered → Value
  | .text s => .text s
  | .number n => .ofNumber n
  | .call _ _ answer => answer

mutual

/-- The calls for the names of a tree in post-order, each with its answer: for the names among the
parameters from left to right, then for the name itself with their values. -/
def calls (context : Value) : Answered → List (Call × Value)
  | .text _ => []
  | .number _ => []
  | .call s arguments answer =>
    callsAll context arguments ++ [(.ofName s.name (arguments.map value) context, answer)]

def callsAll (context : Value) : List Answered → List (Call × Value)
  | [] => []
  | t :: ts => calls context t ++ callsAll context ts

end

mutual

/-- Some answers at all the names of a parameter. -/
def ofParameter : Parameter → Answered
  | .text s => .text s
  | .number n => .number n
  | .call s arguments => .call s (ofParameters arguments) .null

def ofParameters : List Parameter → List Answered
  | [] => []
  | p :: ps => ofParameter p :: ofParameters ps

end

mutual

theorem parameter_ofParameter : ∀ p, (ofParameter p).parameter = p
  | .text _ => rfl
  | .number _ => rfl
  | .call s arguments => by
    rw [ofParameter, parameter, parameters_ofParameters arguments]

theorem parameters_ofParameters : ∀ ps, parameters (ofParameters ps) = ps
  | [] => rfl
  | p :: ps => by
    rw [ofParameters, parameters, parameter_ofParameter p, parameters_ofParameters ps]

end

end Answered

/-! ## The walk asks for the names in post-order -/

namespace Parameter

mutual

theorem exists_gives_walk (resolver : Resolver σ) (settings : Settings) (context : Value) :
    ∀ (p : Parameter) (m : Memory σ), ∃ t : Answered, t.parameter = p ∧
      Resolution.Gives resolver settings m (t.calls context) t.value
        (p.walk resolver context settings m)
  | .text s, m => ⟨.text s, rfl, Resolution.gives_pure (Value.text s) m⟩
  | .number n, m => ⟨.number n, rfl, Resolution.gives_pure (Value.ofNumber n) m⟩
  | .call s arguments, m => by
    obtain ⟨ts, hts, hgives⟩ := exists_gives_walkAll resolver settings context arguments m
    obtain ⟨answer, -, hcall⟩ := hgives.exists_bind (P := fun _ => True) (b := id)
      (g := fun values => resolver (.ofName s.name values context)) ⟨Value.null, trivial⟩
      (Resolution.exists_gives_ask resolver settings _)
    exact ⟨.call s ts answer, by rw [Answered.parameter, hts], hcall⟩

theorem exists_gives_walkAll (resolver : Resolver σ) (settings : Settings) (context : Value) :
    ∀ (ps : List Parameter) (m : Memory σ), ∃ ts : List Answered, Answered.parameters ts = ps ∧
      Resolution.Gives resolver settings m (Answered.callsAll context ts) (ts.map Answered.value)
        (walkAll resolver context ps settings m)
  | [], m => ⟨[], rfl, Resolution.gives_pure [] m⟩
  | p :: ps, m => by
    obtain ⟨t, ht, hgives⟩ := exists_gives_walk resolver settings context p m
    obtain ⟨ts, hts, hall⟩ := hgives.exists_bind (P := fun ts => Answered.parameters ts = ps)
      (b := fun ts => t.value :: ts.map Answered.value)
      (g := fun v => do
        let vs ← walkAll resolver context ps
        pure (v :: vs))
      ⟨Answered.ofParameters ps, Answered.parameters_ofParameters ps⟩
      (fun m' => by
        obtain ⟨ts, hts, hrest⟩ := exists_gives_walkAll resolver settings context ps m'
        exact ⟨ts, hts, hrest.map (t.value :: ·)⟩)
    exact ⟨t :: ts, by rw [Answered.parameters, ht, hts], hall⟩

end

end Parameter

/-- A selector whose parameters can be read: the resolver takes the names of its tree in post-order,
and the value is the answer at the root. -/
theorem Selector.exists_takes_evaluate (resolver : Resolver σ) {s : Selector} {ps : List Parameter}
    (h : s.parameters settings = .ok ps) (context : Value) (m : Memory σ) :
    ∃ (t : Answered) (failure : Option Failure) (m' : Memory σ),
      t.parameter = .call s ps ∧
      Resolution.Takes resolver settings m (t.calls context) failure m' ∧
      s.evaluate resolver context settings m = (Resolution.outcome t.value failure, m') := by
  obtain ⟨t, ht, failure, m', htakes, hwalk⟩ :=
    Parameter.exists_gives_walk resolver settings context (.call s ps) m
  rw [← Parameter.evaluate_eq_walk (Parameter.reparses_of_parameters h) m] at hwalk
  exact ⟨t, failure, m', ht, htakes, hwalk⟩

/-- Evaluation is one parse and one walk. When the parameters cannot be read, that is the error and
the resolver is not called. Otherwise the nested selectors, at every depth, compare as the outer
one does and read the same alone as in their place; the resolver takes the names of the tree in
post-order, each with the values of its parameters, until it fails, and the value of the tree is
the answer at its root. -/
theorem Selector.evaluate_postOrder (resolver : Resolver σ) (settings : Settings)
    (context : Value) (s : Selector) (m : Memory σ) :
    match s.parameters settings with
    | .error e => s.evaluate resolver context settings m = (.error (.rejection e), m)
    | .ok ps =>
      Parameter.Reparses settings s.name.mode (.call s ps) ∧
        ∃ (t : Answered) (failure : Option Failure) (m' : Memory σ),
          t.parameter = .call s ps ∧
          Resolution.Takes resolver settings m (t.calls context) failure m' ∧
          s.evaluate resolver context settings m = (Resolution.outcome t.value failure, m') := by
  split
  · next e h => exact evaluate_of_error h m
  · next ps h =>
    exact ⟨Parameter.reparses_of_parameters h, exists_takes_evaluate resolver h context m⟩

/-! ## The names of a tree -/

namespace Parameter

mutual

/-- The names of a parameter at every depth, in post-order. -/
def names : Parameter → List Name
  | .text _ => []
  | .number _ => []
  | .call s arguments => namesAll arguments ++ [s.name]

def namesAll : List Parameter → List Name
  | [] => []
  | p :: ps => names p ++ namesAll ps

end

end Parameter

namespace Answered

mutual

/-- A tree has one call for each of its names. -/
theorem names_calls (context : Value) :
    ∀ t : Answered, (t.calls context).map (·.1.name) = t.parameter.names.map .name
  | .text _ => rfl
  | .number _ => rfl
  | .call s arguments answer => by
    rw [calls, parameter, Parameter.names, List.map_append, List.map_append,
      names_callsAll context arguments]
    rfl

theorem names_callsAll (context : Value) :
    ∀ ts : List Answered,
      (callsAll context ts).map (·.1.name) = (Parameter.namesAll (parameters ts)).map .name
  | [] => rfl
  | t :: ts => by
    rw [callsAll, parameters, Parameter.namesAll, List.map_append, List.map_append,
      names_calls context t, names_callsAll context ts]

end

mutual

theorem exists_ofName_of_mem_calls {context : Value} {x : Call × Value} :
    ∀ t : Answered, x ∈ t.calls context → ∃ n vs, x.1 = .ofName n vs context
  | .text _, h => absurd h List.not_mem_nil
  | .number _, h => absurd h List.not_mem_nil
  | .call s arguments answer, h => by
    rw [calls] at h
    rcases List.mem_append.1 h with h | h
    · exact exists_ofName_of_mem_callsAll arguments h
    · rw [List.mem_singleton.1 h]
      exact ⟨s.name, arguments.map value, rfl⟩

theorem exists_ofName_of_mem_callsAll {context : Value} {x : Call × Value} :
    ∀ ts : List Answered, x ∈ callsAll context ts → ∃ n vs, x.1 = .ofName n vs context
  | [], h => absurd h List.not_mem_nil
  | t :: ts, h => by
    rw [callsAll] at h
    rcases List.mem_append.1 h with h | h
    · exact exists_ofName_of_mem_calls t h
    · exact exists_ofName_of_mem_callsAll ts h

end

end Answered

/-! ## A record of the calls -/

/-- A resolver that also keeps the calls it was asked, the last one at the end. -/
def Resolver.recording (resolver : Resolver σ) : Resolver (List Call × σ) :=
  fun call settings m =>
    let (r, m') := resolver call settings ⟨m.next, m.state.2⟩
    (r, ⟨m'.next, (m.state.1 ++ [call], m'.state)⟩)

end FunctionCatalog
