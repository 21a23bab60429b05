import FunctionCatalog.Error
import FunctionCatalog.Sorting

/-
  FunctionCatalog: sets of entries, sorted and unique by name.
  A set compares names in its own mode; its entries are strictly ascending by their names folded in
  that mode and carry it. `NamedSet.of` builds a set from entries of any mode and any order.
-/

namespace FunctionCatalog

/-- What can be an entry of a named set. -/
class Entry (α : Type) where
  name : α → Name
  /-- The entry with its names in a mode. -/
  withMode : Settings → CaseMode → α → Except Rejection α
  /-- Equality of entries; names count as equal under their joint mode. -/
  same : α → α → Bool
  mode_of_withMode {settings : Settings} {mode : CaseMode} {a b : α} :
    withMode settings mode a = .ok b → (name b).mode = mode

namespace Entry

variable {α : Type} [Entry α]

/-- The name of an entry, folded in its own mode. -/
def key (e : α) : String := (name e).key

end Entry

open Entry

structure NamedSet (α : Type) [Entry α] where
  mode : CaseMode
  entries : List α
  mode_of_mem : ∀ e ∈ entries, (name e).mode = mode
  ascending : AscendingBy key entries
  handle : Handle := .loose

namespace NamedSet

variable {α : Type} [Entry α]

/-- The set without entries; there is one for each kind of set and mode. -/
def empty (mode : CaseMode) : NamedSet α :=
  { mode, entries := [], mode_of_mem := by simp, ascending := List.Pairwise.nil }

/-- Adds an entry in the set's mode, unless its name is taken. -/
def insert (e : α) (s : NamedSet α) (h : (name e).mode = s.mode) : NamedSet α :=
  { mode := s.mode
    entries := placeBy key e s.entries
    mode_of_mem := fun x hx => (mem_placeBy hx).elim (fun hxe => hxe ▸ h) (s.mode_of_mem x)
    ascending := ascendingBy_placeBy s.ascending }

/-- The entry under a folded name. -/
def find? (s : NamedSet α) (folded : String) : Option α :=
  s.entries.find? (fun e => key e == folded)

/-- Whether two lists agree entry by entry. -/
def allSame : List α → List α → Bool
  | [], [] => true
  | a :: as, b :: bs => Entry.same a b && allSame as bs
  | _, _ => false

/-- Equality of sets: one mode, and equal entries. -/
def same (s t : NamedSet α) : Bool :=
  s.mode == t.mode && allSame s.entries t.entries

/-- A set under construction: what has been added and, in order of appearance, the names under
which a second and different entry came. -/
structure Draft (α : Type) [Entry α] (mode : CaseMode) where
  set : { s : NamedSet α // s.mode = mode }
  clashes : List Name

/-- Takes one more entry: a new name is added, an entry equal to the one that is there is dropped,
any other is a clash. -/
def Draft.add {mode : CaseMode} (settings : Settings) (d : Draft α mode) (e : α) :
    Except Rejection (Draft α mode) :=
  match h : Entry.withMode settings mode e with
  | .error r => .error r
  | .ok e =>
    have he := Entry.mode_of_withMode h
    match d.set.val.find? (key e) with
    | none =>
      .ok { d with
        set := ⟨d.set.val.insert e (he.trans d.set.property.symm), d.set.property⟩ }
    | some present =>
      if Entry.same present e then .ok d else .ok { d with clashes := d.clashes ++ [name e] }

/-- The set that a draft without clashes is. -/
def Draft.finish {mode : CaseMode} (d : Draft α mode) : Except Rejection (NamedSet α) :=
  if d.clashes.isEmpty then .ok d.set.val
  else .error (.duplicateNames (sortDistinctBy Name.key d.clashes))

/-- The set of entries that are worked out one by one, each brought into the mode before the next
one is worked out. Two different entries of one name are refused at the end. -/
def ofSteps {ε : Type} (refuse : Rejection → ε) (settings : Settings) (mode : CaseMode)
    (steps : List (Except ε α)) : Except ε (NamedSet α) := do
  let d ← steps.foldlM (fun d step => do (Draft.add settings d (← step)).mapError refuse)
    (⟨⟨empty mode, rfl⟩, []⟩ : Draft α mode)
  d.finish.mapError refuse

/-- The set of some entries, each brought into the mode. -/
def of (settings : Settings) (mode : CaseMode) (entries : List α) :
    Except Rejection (NamedSet α) :=
  ofSteps id settings mode (entries.map .ok)

/-- The set of other entries in the mode of `s`; it is `s` itself when they are equal to those of
`s`. -/
def updateSteps {ε : Type} (refuse : Rejection → ε) (settings : Settings) (s : NamedSet α)
    (steps : List (Except ε α)) : Except ε (NamedSet α) := do
  let t ← ofSteps refuse settings s.mode steps
  .ok (if t.same s then s else t)

def update (settings : Settings) (s : NamedSet α) (entries : List α) :
    Except Rejection (NamedSet α) :=
  s.updateSteps id settings (entries.map .ok)

/-- The same set with its entries seen as entries of another kind, by names that stay. -/
def lift {β : Type} [Entry β] (f : α → β) (hf : ∀ a, name (f a) = name a) (s : NamedSet α) :
    NamedSet β :=
  { mode := s.mode
    entries := s.entries.map f
    mode_of_mem := by
      intro e he
      obtain ⟨a, ha, rfl⟩ := List.mem_map.1 he
      rw [hf]
      exact s.mode_of_mem a ha
    ascending := by
      have h := s.ascending
      unfold AscendingBy at h ⊢
      rw [List.pairwise_map]
      simpa only [key, hf] using h
    handle := s.handle }

/-- Whether every element is below the one after it. -/
def isAscending : List String → Bool
  | [] => true
  | [_] => true
  | a :: b :: rest => a < b && isAscending (b :: rest)

theorem pairwise_of_isAscending {keys : List String} (h : isAscending keys = true) :
    keys.Pairwise (· < ·) := by
  induction keys with
  | nil => exact List.Pairwise.nil
  | cons a rest ih =>
    cases rest with
    | nil => simp
    | cons b rest =>
      simp only [isAscending, Bool.and_eq_true, decide_eq_true_eq] at h
      have hrest := ih h.2
      refine List.pairwise_cons.2 ⟨?_, hrest⟩
      intro x hx
      rcases List.mem_cons.1 hx with rfl | hx
      · exact h.1
      · exact String.lt_trans h.1 ((List.pairwise_cons.1 hrest).1 x hx)

/-- The set with just these entries, if they are in its mode and in order. -/
def ofEntries? (mode : CaseMode) (entries : List α) (handle : Handle) : Option (NamedSet α) :=
  if h : (∀ e ∈ entries, (name e).mode = mode) ∧ isAscending (entries.map key) = true then
    some {
      mode
      entries
      mode_of_mem := h.1
      ascending := List.pairwise_map.1 (pairwise_of_isAscending h.2)
      handle }
  else none

def names (s : NamedSet α) : List Name :=
  s.entries.map name

/-- The form in which a set compares a name given as text. -/
def fold (s : NamedSet α) (text : String) : String :=
  s.mode.fold text

def get? (s : NamedSet α) (text : String) : Option α :=
  s.find? (s.fold text)

def containsName (s : NamedSet α) (text : String) : Bool :=
  (s.get? text).isSome

/-- Whether an entry equal to `e` stands under the name of `e`. -/
def contains (s : NamedSet α) (e : α) : Bool :=
  match s.get? (name e).value with
  | none => false
  | some present => Entry.same present e

def first? (s : NamedSet α) : Option α := s.entries.head?

def last? (s : NamedSet α) : Option α := s.entries.getLast?

def size (s : NamedSet α) : Nat := s.entries.length

end NamedSet

end FunctionCatalog
