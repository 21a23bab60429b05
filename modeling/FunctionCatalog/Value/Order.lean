import FunctionCatalog.Sorting.Runs
import FunctionCatalog.Value.Equality

/-
  FunctionCatalog: the order of values.
  Numbers, texts, names, infos, aliases and lists of these can be ordered, each kind only within
  itself; anything else has no order. Since NaN and names of several modes are in no proper order,
  what sorting makes of them is what `Sorting.sortM` says.
-/

namespace FunctionCatalog

inductive Relation where
  | lt
  | le
  | gt
  | ge
deriving DecidableEq, Repr

namespace Relation

/-- The relation between two things of which it is known whether they are less and equal, in an
order in which exactly one of less, equal and greater holds. -/
def ofLess (less equal : Bool) : Relation → Bool
  | .lt => less
  | .le => less || equal
  | .gt => !less && !equal
  | .ge => !less

def ofOrdering (o : Ordering) : Relation → Bool
  | .lt => o == .lt
  | .le => o != .gt
  | .gt => o == .gt
  | .ge => o != .lt

end Relation

/-- How two numbers compare; NaN compares with nothing. -/
def Number.compare? : Number → Number → Option Ordering
  | .int i, .int j => some (compare i j)
  | .double x, .double y =>
    if x.isNaN || y.isNaN then none else some (compare x.rank y.rank)
  | .int i, .double x => Binary64.compareInt i x
  | .double x, .int i => (Binary64.compareInt i x).map Ordering.swap

/-- Whether numbers stand in a relation; none does with NaN. -/
def Number.relates (r : Relation) (m n : Number) : Bool :=
  match m.compare? n with
  | none => false
  | some o => r.ofOrdering o

/-- Whether texts stand in a relation. -/
def Relation.ofTexts (r : Relation) (s t : String) : Bool :=
  r.ofLess (s < t) (s == t)

/-- Whether a token that is no text stands in a relation to one that is, which only a mode can. -/
def Value.tokenRelates (r : Relation) (v w : Value) : Option Bool :=
  match v.text?, w.text? with
  | some s, some t => some (r.ofTexts s t)
  | _, _ => none

/-- The relation between two infos by their names, and by their tokens where the names are equal.
Only the order of tokens can be missing. -/
def Info.relatesBy (r : Relation) (m n : Name) (sameToken : Bool) (less : Option Bool) :
    Option Bool :=
  if m.same n then
    if sameToken then some (r.ofLess false true)
    else less.map (fun less => r.ofLess less false)
  else some (r.ofLess (m.before n) false)

mutual

/-- Whether values stand in a relation, if their kinds have an order. -/
def Value.relates (r : Relation) : Value → Value → Option Bool
  | .list vs, .list ws => Value.listRelates r vs ws
  | .tuple vs, .tuple ws => Value.listRelates r vs ws
  | .text s, .text t => some (r.ofTexts s t)
  | .name m, .name n => some (r.ofLess (m.before n) (m.same n))
  | .item i, .item j => Item.relates r i j
  | v, w =>
    match v.number?, w.number? with
    | some m, some n => some (m.relates r n)
    | _, _ => Value.tokenRelates r v w

/-- Lists compare at the first place where they differ, else by their lengths. -/
def Value.listRelates (r : Relation) : List Value → List Value → Option Bool
  | [], [] => some (r.ofOrdering .eq)
  | [], _ :: _ => some (r.ofOrdering .lt)
  | _ :: _, [] => some (r.ofOrdering .gt)
  | v :: vs, w :: ws => if v.same w then Value.listRelates r vs ws else Value.relates r v w

/-- Infos are ordered among each other, and so are aliases. -/
def Item.relates (r : Relation) : Item → Item → Option Bool
  | .info i, .info j => some (r.ofLess (i.before j) (i.same j))
  | .infoWith m t _, .infoWith n u _ =>
    Info.relatesBy r m n (t.same u) (Value.relates .lt t u)
  | .info i, .infoWith n u _ =>
    Info.relatesBy r i.name n (u.text? == some i.token) (Value.tokenRelates .lt (.text i.token) u)
  | .infoWith m t _, .info j =>
    Info.relatesBy r m j.name (t.text? == some j.token) (Value.tokenRelates .lt t (.text j.token))
  | .alias a, .alias b => some (r.ofLess (a.before b) (a.same b))
  | .alias a, .aliasWith n s t h =>
    some (r.ofLess (a.name.before n) (Item.same (.alias a) (.aliasWith n s t h)))
  | .aliasWith m s t h, .alias b =>
    some (r.ofLess (m.before b.name) (Item.same (.aliasWith m s t h) (.alias b)))
  | .aliasWith m s t h, .aliasWith n s' u k =>
    some (r.ofLess (m.before n) (Item.same (.aliasWith m s t h) (.aliasWith n s' u k)))
  | _, _ => none

end

/-- Values in ascending order, unless sorting compares two that have no order. -/
def Value.sort? (vs : List Value) : Option (List Value) :=
  let less (v w : Value) : Except Unit Bool :=
    match Value.relates .lt v w with
    | some b => .ok b
    | none => .error ()
  match Sorting.sortM less vs with
  | .ok sorted => some sorted
  | .error _ => none

end FunctionCatalog
