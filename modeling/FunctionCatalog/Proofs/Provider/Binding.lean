import FunctionCatalog.Proofs.Provider.Calls

/-
  FunctionCatalog: what a leaf binds.
  A leaf keeps the functions that it made and hands out a kept one again to values that agree with
  those it was made for. So an answer has the values of the request itself, or of an earlier request
  whose values agree with them (`Leaf.answer_of_serve`), and all requests of a history have just
  their own values bound exactly if values that agree are alike throughout
  (`Leaf.bindsOwn_iff_tellsApart`).
-/

namespace FunctionCatalog

namespace NamedFunction

variable {f : NamedFunction} {vs : List Value}

theorem parameters_bare (f : NamedFunction) : f.bare.parameters = Value.bareAll f.parameters := by
  cases f
  rfl

/-- Functions that are alike but for their objects have such values. -/
theorem bareAll_of_bare {f g : NamedFunction} (h : f.bare = g.bare) :
    Value.bareAll f.parameters = Value.bareAll g.parameters := by
  rw [← parameters_bare, h, parameters_bare]

/-- The function with just these values bound to it. -/
def withOnly (vs : List Value) (f : NamedFunction) : NamedFunction :=
  .make f.name f.operation vs

theorem withParameters_of_same (h : Value.allSame vs f.parameters = true) :
    f.withParameters vs = f :=
  if_pos h

/-- Values are bound as they are, unless they are the same as the bound ones and not alike. -/
theorem bare_withParameters
    (h : Value.allSame vs f.parameters = true → Value.bareAll vs = Value.bareAll f.parameters) :
    (f.withParameters vs).bare = (f.withOnly vs).bare := by
  by_cases hsame : Value.allSame vs f.parameters = true
  · obtain ⟨n, o, ws, k⟩ := f
    rw [withParameters_of_same hsame]
    simp only [bare, withOnly, make, h hsame]
  · rw [withParameters, if_neg hsame]
    rfl

end NamedFunction

namespace Provider

variable {σ : Type}

theorem nameText_name (n : Name) : (nameText (.name n) : Resolution σ String) = pure n.value :=
  rfl

end Provider

namespace Leaf

variable {leaf : Leaf}

section Name

variable {n : Name} {f : NamedFunction}

theorem resolveName_of_none (h : leaf.function? (leaf.mode.fold n.value) = none)
    (vs : List Value) (context : Value) :
    leaf.resolveName (.ofName n vs context) = .fail (.unknown (.name n)) := by
  simp only [resolveName, Call.ofName, Provider.nameText_name, pure_bind, h]

theorem resolveName_nil {item : Item} (h : leaf.function? (leaf.mode.fold n.value) = some item)
    (context : Value) : leaf.resolveName (.ofName n [] context) = pure (.item item) := by
  simp only [resolveName, Call.ofName, Provider.nameText_name, pure_bind, h]
  rfl

theorem resolveName_cons (h : leaf.function? (leaf.mode.fold n.value) = some (.function f))
    (v : Value) (vs : List Value) (context : Value) :
    leaf.resolveName (.ofName n (v :: vs) context) = (do
      return .item (.function (← materialize f (leaf.mode.fold n.value) (v :: vs)))) := by
  simp only [resolveName, Call.ofName, Provider.nameText_name, pure_bind, h]
  rfl

end Name

/-! ## Requests one after another -/

/-- A call for a name with a list of values, with the settings and the next number of its time. -/
structure Request where
  settings : Settings
  next : Nat
  name : Name
  values : List Value
  context : Value

/-- The key under which the function of a request is kept. -/
def keyOf (leaf : Leaf) (r : Request) : String :=
  leaf.mode.fold r.name.value

/-- A request for a function that the leaf has, with values for it. -/
def Binds (leaf : Leaf) (r : Request) (f : NamedFunction) : Prop :=
  leaf.function? (leaf.keyOf r) = some (.function f) ∧ r.values ≠ []

def answer (leaf : Leaf) (kept : List Materialization) (r : Request) :
    Except Failure Value × Memory (List Materialization) :=
  leaf.resolveName (.ofName r.name r.values r.context) r.settings ⟨r.next, kept⟩

/-- The answers to requests one after another, and what is kept in the end. -/
def serve (leaf : Leaf) : List Materialization → List Request →
    List (Request × Except Failure Value) × List Materialization
  | kept, [] => ([], kept)
  | kept, r :: rs =>
    let (result, memory) := leaf.answer kept r
    let (later, kept) := leaf.serve memory.state rs
    ((r, result) :: later, kept)

/-! ## A single request -/

/-- What is kept for a request. -/
def kept? (leaf : Leaf) (kept : List Materialization) (r : Request) : Option Materialization :=
  kept.find? (fun m => m.key == leaf.keyOf r && Value.allAgree m.values r.values)

theorem asks_of_binds {r : Request} {f : NamedFunction} (h : leaf.Binds r f) :
    leaf.Asks (.ofName r.name r.values r.context) (leaf.keyOf r) f r.values :=
  ⟨rfl, h.1, rfl, h.2⟩

/-- A call for a name asks for what its request is for. -/
theorem binds_of_asks {r : Request} {key : String} {f : NamedFunction} {vs : List Value}
    (h : leaf.Asks (.ofName r.name r.values r.context) key f vs) :
    leaf.keyOf r = key ∧ r.values = vs ∧ leaf.Binds r f := by
  obtain rfl : leaf.keyOf r = key := Option.some.inj h.called
  obtain rfl : r.values = vs := Option.some.inj h.values
  exact ⟨rfl, rfl, h.known, h.nonempty⟩

/-- What is said of a request for `f` by its result and by what is kept after it: what cannot be
part of a key is bound anew, and else the first that is kept for the request is handed out. -/
inductive Result (leaf : Leaf) (kept : List Materialization) (r : Request) (f : NamedFunction) :
    Except Failure Value → Prop
  | fresh {g : NamedFunction} (hkeys : Value.allKeys r.values = false)
      (hg : g.bare = (f.withParameters r.values).bare) :
      Result leaf kept r f (.ok (.item (.function g)))
  | kept {m : Materialization} (hkeys : Value.allKeys r.values = true)
      (hm : leaf.kept? kept r = some m) : Result leaf kept r f (.ok (.item (.function m.function)))

/-- A materialization is the function of some request with the values of this request. -/
def MadeFor (leaf : Leaf) (m : Materialization) (r : Request) : Prop :=
  ∃ f, leaf.Binds r f ∧ m.key = leaf.keyOf r ∧ m.values = r.values ∧
    Value.allKeys r.values = true ∧ m.function.bare = (f.withParameters r.values).bare

theorem Result.append {kept : List Materialization} {r : Request} {f : NamedFunction}
    {result : Except Failure Value} (h : Result leaf kept r f result)
    (more : List Materialization) : Result leaf (kept ++ more) r f result := by
  cases h with
  | fresh hkeys hg => exact .fresh hkeys hg
  | kept hkeys hm => exact .kept hkeys (lookup_append hm more)

/-- A request leaves what is kept, or adds what was made for it. -/
theorem exists_answer (leaf : Leaf) (kept : List Materialization) (r : Request) :
    ∃ more, (leaf.answer kept r).2.state = kept ++ more ∧
      (∀ m ∈ more, leaf.MadeFor m r ∧ leaf.kept? (kept ++ more) r = some m) ∧
      ∀ f, leaf.Binds r f → Result leaf (kept ++ more) r f (leaf.answer kept r).1 := by
  have hdoes : leaf.Does (.ofName r.name r.values r.context) ⟨r.next, kept⟩ (leaf.answer kept r) :=
    leaf.does_resolveName _ _ _
  generalize leaf.answer kept r = result at hdoes ⊢
  cases hdoes with
  | fails hasks | asIs hasks =>
    exact ⟨[], (List.append_nil kept).symm, fun m hm => absurd hm List.not_mem_nil,
      fun f hf => absurd (asks_of_binds hf) (hasks _ _ _)⟩
  | again hasks hkeys hm =>
    obtain ⟨rfl, rfl, -⟩ := binds_of_asks hasks
    exact ⟨[], (List.append_nil kept).symm, fun m hm => absurd hm List.not_mem_nil,
      fun f _ => .kept hkeys (lookup_append hm [])⟩
  | keeps hasks hkeys hnone =>
    obtain ⟨rfl, rfl, hf⟩ := binds_of_asks hasks
    have hkept := lookup_append_of_none hkeys hnone
    refine ⟨[_], rfl, fun m hm => ?_, fun f _ => .kept hkeys (hkept _)⟩
    rw [List.mem_singleton.1 hm]
    exact ⟨⟨_, hf, rfl, rfl, hkeys, NamedFunction.bare_settle _ _⟩, hkept _⟩
  | binds hasks hkeys =>
    obtain ⟨rfl, rfl, -⟩ := binds_of_asks hasks
    refine ⟨[], (List.append_nil kept).symm, fun m hm => absurd hm List.not_mem_nil, ?_⟩
    intro f hf
    obtain ⟨-, rfl, -⟩ := hasks.unique (asks_of_binds hf)
    exact .fresh hkeys (NamedFunction.bare_settle _ _)

/-! ## Histories -/

/-- What is kept was made for an earlier request, and it is what is kept for this request. -/
def Sound (leaf : Leaf) (past : List Request) (kept : List Materialization) : Prop :=
  ∀ m ∈ kept, ∃ r ∈ past, leaf.MadeFor m r ∧ leaf.kept? kept r = some m

/-- After a history all that is kept was made for its requests, and each result is still what is
kept for its request. -/
theorem exists_serve (leaf : Leaf) (kept : List Materialization) (rs : List Request) :
    ∃ more, (leaf.serve kept rs).2 = kept ++ more ∧
      (∀ m ∈ more, ∃ r ∈ rs, leaf.MadeFor m r ∧ leaf.kept? (kept ++ more) r = some m) ∧
      (leaf.serve kept rs).1.map (·.1) = rs ∧
      ∀ x ∈ (leaf.serve kept rs).1, ∀ f, leaf.Binds x.1 f →
        Result leaf (kept ++ more) x.1 f x.2 := by
  induction rs generalizing kept with
  | nil =>
    exact ⟨[], (List.append_nil kept).symm, fun m hm => absurd hm List.not_mem_nil, rfl,
      fun x hx => absurd hx List.not_mem_nil⟩
  | cons r rs ih =>
    obtain ⟨first, hstate, hfirst, hresult⟩ := leaf.exists_answer kept r
    obtain ⟨more, hkept, hmore, hrequests, hresults⟩ := ih (kept ++ first)
    have hserve : leaf.serve kept (r :: rs) =
        ((r, (leaf.answer kept r).1) :: (leaf.serve (kept ++ first) rs).1,
          (leaf.serve (kept ++ first) rs).2) := by
      rw [← hstate]
      rfl
    rw [hserve]
    refine ⟨first ++ more, ?_, fun m hm => ?_, ?_, fun x hx f hf => ?_⟩
    · rw [hkept, List.append_assoc]
    · rw [← List.append_assoc]
      rcases List.mem_append.1 hm with hm | hm
      · exact ⟨r, List.mem_cons_self, (hfirst m hm).1, lookup_append (hfirst m hm).2 more⟩
      · obtain ⟨r', hr', hmade⟩ := hmore m hm
        exact ⟨r', List.mem_cons_of_mem r hr', hmade⟩
    · rw [List.map_cons, hrequests]
    · rw [← List.append_assoc]
      rcases List.mem_cons.1 hx with rfl | hx
      · exact (hresult f hf).append more
      · exact hresults x hx f hf

/-- What a history that starts with nothing kept answers. -/
def answers (leaf : Leaf) (rs : List Request) : List (Request × Except Failure Value) :=
  (leaf.serve [] rs).1

/-- A result is the function with the values of a request, and with these alone. -/
def IsOwn (f : NamedFunction) (r : Request) (result : Except Failure Value) : Prop :=
  ∃ g : NamedFunction, result = .ok (.item (.function g)) ∧ g.bare = (f.withOnly r.values).bare

/-- The values of two requests for one function can be keys and agree. -/
structure Share (leaf : Leaf) (r r' : Request) : Prop where
  key : leaf.keyOf r = leaf.keyOf r'
  keys : Value.allKeys r.values = true
  keys' : Value.allKeys r'.values = true
  agree : Value.allAgree r.values r'.values = true

/-- Values that agree with those of another request for the function, or are the same as those that
it has already, are alike throughout. -/
def TellsApart (leaf : Leaf) (rs : List Request) : Prop :=
  ∀ f, ∀ r ∈ rs, leaf.Binds r f →
    (Value.allSame r.values f.parameters = true →
      Value.bareAll r.values = Value.bareAll f.parameters) ∧
    ∀ r' ∈ rs, leaf.Share r' r → Value.bareAll r'.values = Value.bareAll r.values

variable {rs : List Request} {kept : List Materialization} {r : Request} {f : NamedFunction}
  {m : Materialization}

theorem share_of_kept? (hm : leaf.kept? kept r = some m) (hkeys : Value.allKeys r.values = true)
    {r' : Request} (hmade : leaf.MadeFor m r') : leaf.Share r' r := by
  obtain ⟨f', -, hkey, hvalues, hkeys', -⟩ := hmade
  have hfound := (eq_of_lookup hm).2
  rw [hkey, hvalues] at hfound
  exact ⟨hfound.1, hkeys', hkeys, hfound.2⟩

/-- What was made for a request that shares with a request for `f` is made of `f`. -/
theorem bare_of_madeFor (hf : leaf.Binds r f) {r' : Request} (hshare : leaf.Share r' r)
    (hmade : leaf.MadeFor m r') :
    leaf.Binds r' f ∧ m.function.bare = (f.withParameters r'.values).bare := by
  obtain ⟨f', hf', -, -, -, hbare⟩ := hmade
  have hitem := hf'.1
  rw [hshare.key, hf.1] at hitem
  obtain rfl : f = f' := by simpa using hitem
  exact ⟨hf', hbare⟩

/-- All that a history binds is its own when it tells values apart. -/
theorem isOwn_of_tellsApart (h : leaf.TellsApart rs) (hkept : leaf.Sound rs kept) (hr : r ∈ rs)
    (hf : leaf.Binds r f) {result : Except Failure Value} (hresult : Result leaf kept r f result) :
    IsOwn f r result := by
  cases hresult with
  | fresh hkeys hg =>
    exact ⟨_, rfl, hg.trans (NamedFunction.bare_withParameters (h f r hr hf).1)⟩
  | @kept m hkeys hm =>
    obtain ⟨r', hr', hmade, -⟩ := hkept m (List.mem_of_find?_eq_some hm)
    have hshare := share_of_kept? hm hkeys hmade
    obtain ⟨hf', hbare⟩ := bare_of_madeFor hf hshare hmade
    have hvalues := (h f r hr hf).2 r' hr' hshare
    refine ⟨_, rfl, hbare.trans ?_⟩
    rw [NamedFunction.bare_withParameters (h f r' hr' hf').1]
    simp only [NamedFunction.withOnly, NamedFunction.make, NamedFunction.bare, hvalues]

/-- Two tests that each pass the first element of the other find the same element. -/
theorem eq_of_find? {α : Type} {p q : α → Bool} {xs : List α} {x y : α} (hx : xs.find? p = some x)
    (hy : xs.find? q = some y) (hpy : p y = true) (hqx : q x = true) : x = y := by
  induction xs with
  | nil => cases hx
  | cons z xs ih =>
    rw [List.find?_cons] at hx hy
    cases hp : p z <;> cases hq : q z <;> simp only [hp, hq, Option.some.injEq] at hx hy
    · exact ih hx hy
    · rw [← hy, hp] at hpy
      cases hpy
    · rw [← hx, hq] at hqx
      cases hqx
    · exact hx.symm.trans hy

/-- Where all that is bound is the requests' own, what is kept for a request was made for values
that are alike, of the same function. -/
theorem exists_kept_of_isOwn (hkept : leaf.Sound rs kept)
    (hown : ∀ r ∈ rs, ∀ f, leaf.Binds r f →
      ∃ result, Result leaf kept r f result ∧ IsOwn f r result)
    (hr : r ∈ rs) (hf : leaf.Binds r f) (hkeys : Value.allKeys r.values = true) :
    ∃ m r', leaf.kept? kept r = some m ∧ m.values = r'.values ∧ leaf.Share r' r ∧
      Value.bareAll r'.values = Value.bareAll r.values ∧
      m.function.bare = (f.withOnly r.values).bare ∧
      m.function.bare = (f.withParameters r'.values).bare := by
  have hresult : ∀ q ∈ rs, leaf.Binds q f → Value.allKeys q.values = true →
      ∃ m, leaf.kept? kept q = some m ∧ m.function.bare = (f.withOnly q.values).bare := by
    intro q hq hqf hqkeys
    obtain ⟨result, hresult, g, heq, hg⟩ := hown q hq f hqf
    cases hresult with
    | fresh hnot => rw [hqkeys] at hnot; cases hnot
    | @kept m _ hm =>
      cases heq
      exact ⟨m, hm, hg⟩
  obtain ⟨m, hm, hbare⟩ := hresult r hr hf hkeys
  obtain ⟨r', hr', hmade, hm'⟩ := hkept m (List.mem_of_find?_eq_some hm)
  have hshare := share_of_kept? hm hkeys hmade
  obtain ⟨hf', hbare'⟩ := bare_of_madeFor hf hshare hmade
  obtain ⟨m', hm'', hown'⟩ := hresult r' hr' hf' hshare.keys
  obtain rfl : m = m' := Option.some.inj (hm'.symm.trans hm'')
  obtain ⟨-, -, -, hvalues, -, -⟩ := hmade
  have hparameters := NamedFunction.bareAll_of_bare (hown'.symm.trans hbare)
  exact ⟨m, r', hm, hvalues, hshare, hparameters, hbare, hbare'⟩

/-- A history whose values are all bound as they are tells values apart. -/
theorem tellsApart_of_isOwn (hkept : leaf.Sound rs kept)
    (hown : ∀ r ∈ rs, ∀ f, leaf.Binds r f →
      ∃ result, Result leaf kept r f result ∧ IsOwn f r result) : leaf.TellsApart rs := by
  intro f r hr hf
  constructor
  · intro hsame
    by_cases hkeys : Value.allKeys r.values = true
    · obtain ⟨m, r', hm, -, hshare, hvalues, hbare, hbare'⟩ :=
        exists_kept_of_isOwn hkept hown hr hf hkeys
      have hsame' : Value.allSame r'.values f.parameters = true := by
        rw [Value.allSame_of_bare hshare.keys hvalues (Value.allSame_of_allAgree hshare.agree), hsame]
      rw [NamedFunction.withParameters_of_same hsame'] at hbare'
      exact NamedFunction.bareAll_of_bare (hbare.symm.trans hbare')
    · obtain ⟨result, hresult, g, heq, hg⟩ := hown r hr f hf
      cases hresult with
      | kept hkeys' => exact absurd hkeys' hkeys
      | fresh _ hfresh =>
        cases heq
        rw [NamedFunction.withParameters_of_same hsame] at hfresh
        exact NamedFunction.bareAll_of_bare (hg.symm.trans hfresh)
  · intro r' hr' hshare
    have hf' : leaf.Binds r' f := by
      refine ⟨hshare.key ▸ hf.1, fun hnil => hf.2 ?_⟩
      have hagree := hshare.agree
      rw [hnil] at hagree
      cases hvalues : r.values with
      | nil => rfl
      | cons v vs => rw [hvalues] at hagree; cases hagree
    obtain ⟨m, q, hm, hvalues, hq, hbare, -⟩ :=
      exists_kept_of_isOwn hkept hown hr hf hshare.keys'
    obtain ⟨m', q', hm', hvalues', hq', hbare', -⟩ :=
      exists_kept_of_isOwn hkept hown hr' hf' hshare.keys
    -- Each of the two is the first that is kept for the other request, too.
    have hagree : Value.allAgree q.values r'.values = true := by
      rw [Value.allAgree_of_bare hq.keys hbare hq.agree, ← Value.allAgree_comm hshare.keys]
      exact hshare.agree
    have hagree' : Value.allAgree q'.values r.values = true := by
      rw [Value.allAgree_of_bare hq'.keys hbare' hq'.agree]
      exact hshare.agree
    have hone : m = m' := by
      refine eq_of_find? hm hm' ?_ ?_
      · rw [Bool.and_eq_true, beq_iff_eq, (eq_of_lookup hm').2.1, hvalues']
        exact ⟨hshare.key, hagree'⟩
      · rw [Bool.and_eq_true, beq_iff_eq, (eq_of_lookup hm).2.1, hvalues]
        exact ⟨hshare.key.symm, hagree⟩
    rw [← hbare, ← hbare', ← hvalues, ← hvalues', hone]

/-- A history tells values apart if all that it binds is its own. -/
theorem tellsApart_of_answers (h : ∀ x ∈ leaf.answers rs, ∀ f, leaf.Binds x.1 f → IsOwn f x.1 x.2) :
    leaf.TellsApart rs := by
  obtain ⟨kept, -, hsound, hrequests, hresults⟩ := leaf.exists_serve [] rs
  rw [List.nil_append] at hsound hresults
  refine tellsApart_of_isOwn hsound fun r hr f hf => ?_
  rw [← hrequests] at hr
  obtain ⟨x, hx, rfl⟩ := List.mem_map.1 hr
  exact ⟨x.2, hresults x hx f hf, h x hx f hf⟩

theorem exists_of_result {x : Request × Except Failure Value} (hkept : leaf.Sound rs kept)
    (hx : x.1 ∈ rs) (hf : leaf.Binds x.1 f) (hresult : Result leaf kept x.1 f x.2) :
    ∃ r ∈ rs, (r = x.1 ∨ leaf.Share r x.1) ∧ ∃ g : NamedFunction,
      x.2 = .ok (.item (.function g)) ∧ g.bare = (f.withParameters r.values).bare := by
  obtain ⟨r, result⟩ := x
  cases hresult with
  | @fresh g _ hg => exact ⟨r, hx, .inl rfl, g, rfl, hg⟩
  | @kept m hkeys hm =>
    obtain ⟨r', hr', hmade, -⟩ := hkept m (List.mem_of_find?_eq_some hm)
    have hshare := share_of_kept? hm hkeys hmade
    exact ⟨r', hr', .inr hshare, m.function, rfl, (bare_of_madeFor hf hshare hmade).2⟩

/-- All requests of a history are answered. A known name with values gets its function with these
values bound to it, or with those of a request that shares with this one. All get just their own
values exactly if the history tells values apart, and then what is bound is of the same kinds as the
values of the request and is written like them. -/
theorem bindsOwn_iff_tellsApart (leaf : Leaf) (rs : List Request) :
    (leaf.answers rs).map (·.1) = rs ∧
    (∀ x ∈ leaf.answers rs, ∀ f, leaf.Binds x.1 f → ∃ r ∈ rs, (r = x.1 ∨ leaf.Share r x.1) ∧
      ∃ g : NamedFunction, x.2 = .ok (.item (.function g)) ∧
        g.bare = (f.withParameters r.values).bare) ∧
    ((∀ x ∈ leaf.answers rs, ∀ f, leaf.Binds x.1 f → IsOwn f x.1 x.2) ↔ leaf.TellsApart rs) ∧
    (∀ f r result, IsOwn f r result → ∃ g : NamedFunction, result = .ok (.item (.function g)) ∧
      g.operation = f.operation ∧ g.parameters.map Value.kindText = r.values.map Value.kindText ∧
      g.parameters.map Value.display = r.values.map Value.display) := by
  obtain ⟨kept, -, hsound, hrequests, hresults⟩ := leaf.exists_serve [] rs
  rw [List.nil_append] at hsound hresults
  have hmem : ∀ x ∈ leaf.answers rs, x.1 ∈ rs := fun x hx => hrequests ▸ List.mem_map_of_mem hx
  refine ⟨hrequests, fun x hx f hf => ?_, ⟨tellsApart_of_answers, fun hapart x hx f hf => ?_⟩, ?_⟩
  · exact exists_of_result hsound (hmem x hx) hf (hresults x hx f hf)
  · exact isOwn_of_tellsApart hapart hsound (hmem x hx) hf (hresults x hx f hf)
  · rintro f r result ⟨g, rfl, hg⟩
    have hvalues := NamedFunction.bareAll_of_bare hg
    refine ⟨g, rfl, ?_, Value.kindText_of_bareAll hvalues, Value.display_of_bareAll hvalues⟩
    have hoperation : ∀ h : NamedFunction, h.bare.operation = h.operation := fun h => by
      cases h
      rfl
    rw [← hoperation, hg, hoperation]
    rfl

/-! ### Two zeros -/

def echoName : Name where
  value := "echo"
  mode := .sensitive
  isName_value := by decide

/-- A leaf with one function, which hands its arguments back. -/
def echoing : Leaf :=
  match make {} .sensitive "u" [.item (.function (.make echoName .echo []))] with
  | .ok leaf => leaf
  | .error _ => ⟨.sensitive, [], .empty .sensitive⟩

/-- A request for a zero of a sign. -/
def zero (negative : Bool) : Request :=
  ⟨{}, 0, echoName, [.double (.zero negative)], .null⟩

theorem binds_zero (negative : Bool) :
    echoing.Binds (zero negative) (.make echoName .echo []) := by
  refine ⟨?_, List.cons_ne_nil _ _⟩
  rfl

/-- A leaf that has bound the positive zero binds it again when it is asked for the negative one. -/
theorem negative_zero_is_lost :
    make {} .sensitive "u" [.item (.function (.make echoName .echo []))] = .ok echoing ∧
    ¬ ∀ x ∈ echoing.answers [zero false, zero true], ∀ f, echoing.Binds x.1 f →
      IsOwn f x.1 x.2 := by
  constructor
  · rfl
  · intro hown
    have hapart := tellsApart_of_answers hown
    have hshare : echoing.Share (zero false) (zero true) := ⟨rfl, rfl, rfl, by decide +kernel⟩
    have hzeros := (hapart _ (zero true) (by simp) (binds_zero true)).2 (zero false) (by simp) hshare
    have hbare : (Binary64.zero false).bare = (Binary64.zero true).bare := by
      simpa [zero, Value.bareAll, Value.bare] using hzeros
    exact absurd hbare (by decide +kernel)

end Leaf

end FunctionCatalog
