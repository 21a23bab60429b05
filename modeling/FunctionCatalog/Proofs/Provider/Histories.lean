import FunctionCatalog.Proofs.Provider.Calls
import FunctionCatalog.Proofs.Value.Numbering

/-
  FunctionCatalog: calls of a leaf one after another.
  What is kept stays, so after a history each call with values that can be part of a key has got
  what is kept for them (`Leaf.exists_play`), whatever was asked between the calls and whatever
  objects were made elsewhere.
-/

namespace FunctionCatalog.Leaf

variable {leaf : Leaf} {c : Call} {key : String} {vs ws : List Value}
  {memory : Memory (List Materialization)}

/-! ## What is kept -/

/-- What is kept for some values is kept for all that agree with them. -/
theorem lookup_of_allAgree (hvs : ∀ v ∈ vs, v.isSimple = true) (h : Value.allAgree vs ws = true)
    (kept : List Materialization) (key : String) : lookup kept key vs = lookup kept key ws := by
  have htests : ∀ m : Materialization, Value.allAgree m.values vs = Value.allAgree m.values ws :=
    fun m => Value.allAgree_of_simple hvs h m.values
  simp only [lookup, htests]

/-- A materialization has the values bound, of which it is kept as that function. -/
def Made (leaf : Leaf) (m : Materialization) : Prop :=
  Value.allKeys m.values = true ∧ ∃ f next, leaf.function? m.key = some (.function f) ∧
    m.function = (bound f m.values next).1

/-- A call only adds to what is kept, and what a call with values got is kept for them. -/
theorem Does.exists_kept {r : Except Failure Value × Memory (List Materialization)}
    (h : leaf.Does c memory r) :
    ∃ more, r.2.state = memory.state ++ more ∧ (∀ m ∈ more, leaf.Made m) ∧
      ∀ key f vs, leaf.Asks c key f vs → Value.allKeys vs = true →
        ∃ m, lookup (memory.state ++ more) key vs = some m ∧
          r.1 = .ok (.item (.function m.function)) := by
  cases h with
  | fails hasks | asIs hasks =>
    exact ⟨[], (List.append_nil _).symm, fun m hm => absurd hm List.not_mem_nil,
      fun key f vs h => absurd h (hasks key f vs)⟩
  | @again _ _ _ m hasks hkeys hm =>
    refine ⟨[], (List.append_nil _).symm, fun m hm => absurd hm List.not_mem_nil, ?_⟩
    intro key f vs h _
    obtain ⟨rfl, rfl, rfl⟩ := hasks.unique h
    exact ⟨m, lookup_append hm [], rfl⟩
  | @keeps key f vs hasks hkeys hnone =>
    refine ⟨[_], rfl, fun m hm => ?_, ?_⟩
    · rw [List.mem_singleton.1 hm]
      exact ⟨hkeys, f, memory.next, hasks.known, rfl⟩
    · intro key f vs h _
      obtain ⟨rfl, rfl, rfl⟩ := hasks.unique h
      exact ⟨_, lookup_append_of_none hkeys hnone _, rfl⟩
  | binds hasks hkeys =>
    refine ⟨[], (List.append_nil _).symm, fun m hm => absurd hm List.not_mem_nil, ?_⟩
    intro key f vs h hkeys'
    obtain ⟨rfl, rfl, rfl⟩ := hasks.unique h
    rw [hkeys] at hkeys'
    cases hkeys'

/-! ## Histories -/

/-- A call with the settings of its time and with how many objects were made elsewhere since the
call before it. -/
structure Turn where
  settings : Settings
  made : Nat
  call : Call

def turn (leaf : Leaf) (memory : Memory (List Materialization)) (t : Turn) :
    Except Failure Value × Memory (List Materialization) :=
  leaf.resolveName t.call t.settings ⟨memory.next + t.made, memory.state⟩

/-- What calls one after another get, and the memory in the end. -/
def play (leaf : Leaf) : Memory (List Materialization) → List Turn →
    List (Turn × Except Failure Value) × Memory (List Materialization)
  | memory, [] => ([], memory)
  | memory, t :: ts =>
    let later := leaf.play (leaf.turn memory t).2 ts
    ((t, (leaf.turn memory t).1) :: later.1, later.2)

theorem does_turn (leaf : Leaf) (memory : Memory (List Materialization)) (t : Turn) :
    leaf.Does t.call ⟨memory.next + t.made, memory.state⟩ (leaf.turn memory t) :=
  leaf.does_resolveName t.call t.settings _

/-- What a call with values got is kept for them to the end of a history. -/
theorem exists_play (leaf : Leaf) (turns : List Turn) (memory : Memory (List Materialization)) :
    ∃ more, (leaf.play memory turns).2.state = memory.state ++ more ∧
      (∀ m ∈ more, leaf.Made m) ∧ (leaf.play memory turns).1.map (·.1) = turns ∧
      ∀ x ∈ (leaf.play memory turns).1, ∀ key f vs, leaf.Asks x.1.call key f vs →
        Value.allKeys vs = true → ∃ m, lookup (memory.state ++ more) key vs = some m ∧
          x.2 = .ok (.item (.function m.function)) := by
  induction turns generalizing memory with
  | nil =>
    exact ⟨[], (List.append_nil _).symm, fun m hm => absurd hm List.not_mem_nil, rfl,
      fun x hx => absurd hx List.not_mem_nil⟩
  | cons t ts ih =>
    obtain ⟨first, hstate, hfirst, hgot⟩ := (leaf.does_turn memory t).exists_kept
    obtain ⟨more, hkept, hmore, hturns, hresults⟩ := ih (leaf.turn memory t).2
    rw [hstate, List.append_assoc] at hkept hresults
    refine ⟨first ++ more, hkept, fun m hm => ?_, congrArg (t :: ·) hturns, ?_⟩
    · exact (List.mem_append.1 hm).elim (hfirst m) (hmore m)
    · intro x hx key f vs hasks hkeys
      rcases List.mem_cons.1 hx with rfl | hx
      · obtain ⟨m, hm, hresult⟩ := hgot key f vs hasks hkeys
        rw [← List.append_assoc]
        exact ⟨m, lookup_append hm more, hresult⟩
      · exact hresults x hx key f vs hasks hkeys

end FunctionCatalog.Leaf
