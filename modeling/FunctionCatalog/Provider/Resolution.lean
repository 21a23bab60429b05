import FunctionCatalog.Failure
import FunctionCatalog.Value.Settle

/-
  FunctionCatalog: computations that resolve.
  A resolution reads the settings, may change a state of type `σ`, may number new objects, and ends
  in a result or a failure; what it did to the state before a failure stays done.
-/

namespace FunctionCatalog

/-- What a resolution remembers: a state, and the next number for a new object. -/
structure Memory (σ : Type) where
  next : Nat
  state : σ

/-- A computation over a state `σ` that gives an `α` or fails. -/
def Resolution (σ α : Type) : Type :=
  Settings → Memory σ → Except Failure α × Memory σ

namespace Resolution

variable {σ τ α β : Type}

instance : Monad (Resolution σ) where
  pure a := fun _ s => (.ok a, s)
  bind x f := fun settings s =>
    match x settings s with
    | (.ok a, t) => f a settings t
    | (.error e, t) => (.error e, t)

instance : LawfulMonad (Resolution σ) where
  map_const := rfl
  id_map x := by
    funext settings s
    change (match x settings s with
      | (.ok a, t) => (.ok a, t)
      | (.error e, t) => (.error e, t)) = x settings s
    split <;> simp_all
  seqLeft_eq x y := by
    funext settings s
    simp only [SeqLeft.seqLeft, Seq.seq, Functor.map]
    rcases x settings s with ⟨_ | a, t⟩ <;> simp [Function.comp]
  seqRight_eq x y := by
    funext settings s
    simp only [SeqRight.seqRight, Seq.seq, Functor.map]
    rcases x settings s with ⟨_ | a, t⟩ <;> simp [Function.comp]
    rcases y settings t with ⟨_ | b, u⟩ <;> rfl
  pure_seq f x := rfl
  bind_pure_comp f x := rfl
  bind_map f x := rfl
  pure_bind a f := rfl
  bind_assoc x f g := by
    funext settings s
    simp only [bind]
    rcases x settings s with ⟨_ | a, t⟩ <;> rfl

def fail (e : Failure) : Resolution σ α :=
  fun _ s => (.error e, s)

def settings : Resolution σ Settings :=
  fun settings s => (.ok settings, s)

def ofExcept : Except Failure α → Resolution σ α
  | .ok a => pure a
  | .error e => fail e

/-- What can be read off the state. -/
def get (f : σ → α) : Resolution σ α :=
  fun _ s => (.ok (f s.state), s)

def modify (f : σ → σ) : Resolution σ Unit :=
  fun _ s => (.ok (), { s with state := f s.state })

/-- A resolution that hands out numbers. -/
def ofSupply (x : Supply α) : Resolution σ α :=
  fun _ s =>
    let (a, next) := x.run s.next
    (.ok a, { s with next })

/-- A resolution over a part of a larger state. -/
def zoom (get : τ → σ) (set : σ → τ → τ) (x : Resolution σ α) : Resolution τ α :=
  fun settings t =>
    let (r, s) := x settings ⟨t.next, get t.state⟩
    (r, ⟨s.next, set s.state t.state⟩)

end Resolution

end FunctionCatalog
