import FunctionCatalog.Value.Basic

/-
  FunctionCatalog: when values are the same.
  Numbers are compared across their kinds, names under their joint mode, and whatever has parts part
  by part, records without regard to order. A NaN is the same as itself but equal to nothing.
  `Value.identical` tells whether two values are one object.
-/

namespace FunctionCatalog

/-- Numbers are the same when they are equal, or one NaN. -/
def Number.same : Number → Number → Bool
  | .int i, .int j => i == j
  | .double x, .double y => x == y || x.equal y
  | .int i, .double x => Binary64.compareInt i x == some .eq
  | .double x, .int i => Binary64.compareInt i x == some .eq

/-- The value at the first key that satisfies `p`. -/
def Value.find? (p : Value → Bool) : List Value → List Value → Option Value
  | k :: ks, v :: vs => if p k then some v else Value.find? p ks vs
  | _, _ => none

/-- Whether among some fields there is one for each pair of tests, with a key that passes the first
test and a value that passes the second. -/
def Value.fieldsPass : List (Value → Bool) → List (Value → Bool) → List Value → List Value → Bool
  | p :: ps, q :: qs, ks, vs => (Value.find? p ks vs).any q && Value.fieldsPass ps qs ks vs
  | _, _, _, _ => true

mutual

def Value.same : Value → Value → Bool
  | .list vs, .list ws => Value.allSame vs ws
  | .tuple vs, .tuple ws => Value.allSame vs ws
  | .record ks vs, .record ls ws =>
    ks.length == ls.length && Value.fieldsPass (Value.tests ks) (Value.tests vs) ls ws
  | .item i, .item j => Item.same i j
  | .set k m es _, .set l n fs _ => k == l && m == n && Item.allSame es fs
  | .null, .null => true
  | .text s, .text t => s == t
  | .moment m, .moment n => m.same n
  | .claim c, .claim d => c == d
  | .name m, .name n => m.same n
  | .operation o, .operation p => o == p
  | .provider p, .provider q => p.id == q.id
  | .outcome i, .outcome j => i == j
  | v, w =>
    match v.number?, w.number? with
    | some m, some n => m.same n
    | _, _ =>
      match v.text?, w.text? with
      | some s, some t => s == t
      | _, _ => false

def Value.allSame : List Value → List Value → Bool
  | [], [] => true
  | v :: vs, w :: ws => Value.same v w && Value.allSame vs ws
  | _, _ => false

/-- For each value the test whether another one is the same. -/
def Value.tests : List Value → List (Value → Bool)
  | [] => []
  | v :: vs => (fun w => Value.same v w) :: Value.tests vs

/-- Items are the same when they are of one kind and their parts are the same, whatever objects they
are. -/
def Item.same : Item → Item → Bool
  | .info i, .info j => i.same j
  | .infoWith m t _, .infoWith n u _ => m.same n && Value.same t u
  | .info i, .infoWith n t _ => i.name.same n && t.text? == some i.token
  | .infoWith n t _, .info i => n.same i.name && t.text? == some i.token
  | .selector s, .selector t => s.same t
  | .alias a, .alias b => a.same b
  | .aliasWith m s t _, .aliasWith n r u _ => m.same n && s.same r && Value.same t u
  | .alias a, .aliasWith n s t _ =>
    a.name.same n && a.target.any (·.same s) && a.token.isSome && a.token == t.text?
  | .aliasWith n s t _, .alias a =>
    n.same a.name && a.target.any (s.same ·) && a.token.isSome && a.token == t.text?
  | .function f, .function g => NamedFunction.same f g
  | _, _ => false

def Item.allSame : List Item → List Item → Bool
  | [], [] => true
  | i :: is, j :: js => Item.same i j && Item.allSame is js
  | _, _ => false

/-- Functions are the same when their names, operations and bound values are. -/
def NamedFunction.same : NamedFunction → NamedFunction → Bool
  | ⟨m, o, vs, _⟩, ⟨n, p, ws, _⟩ => m.same n && o == p && Value.allSame vs ws

end

/-- Equality of values. -/
def Value.equal : Value → Value → Bool
  | .double x, .double y => x.equal y
  | v, w => v.same w

mutual

/-- Whether a value may be part of a key: a list or a record may not, nor anything that holds
one. -/
def Value.isKey : Value → Bool
  | .list _ => false
  | .record _ _ => false
  | .tuple vs => Value.allKeys vs
  | .item i => Item.isKey i
  | .set _ _ es _ => Item.allKeys es
  | _ => true

def Value.allKeys : List Value → Bool
  | [] => true
  | v :: vs => Value.isKey v && Value.allKeys vs

def Item.isKey : Item → Bool
  | .infoWith _ t _ => Value.isKey t
  | .aliasWith _ _ t _ => Value.isKey t
  | .function f => NamedFunction.isKey f
  | _ => true

def Item.allKeys : List Item → Bool
  | [] => true
  | i :: is => Item.isKey i && Item.allKeys is

def NamedFunction.isKey : NamedFunction → Bool
  | ⟨_, _, vs, _⟩ => Value.allKeys vs

end

namespace Value

/-- Whether values are the same and of one kind, so that `1`, `1.0` and `true` are told apart. -/
def agrees (v w : Value) : Bool :=
  v.kindText == w.kindText && v.same w

def allAgree : List Value → List Value → Bool
  | [], [] => true
  | v :: vs, w :: ws => v.agrees w && allAgree vs ws
  | _, _ => false

/-- Values that are objects of their own, so that a comparison shows which ones they are. -/
def isObject : Value → Bool
  | name _ | item _ | set _ _ _ _ | provider _ => true
  | _ => false

/-- Whether two values are one object. There is one empty set of each kind and mode. -/
def identical : Value → Value → Bool
  | name m, name n => m.handle.same n.handle
  | item i, item j => i.handle.same j.handle
  | set k m es h, set l n fs g =>
    if es.isEmpty && fs.isEmpty then k == l && m == n else h.same g
  | provider p, provider q => p.id == q.id
  | _, _ => false

/-- The small numbers and texts, and whatever has no parts, come as one object each. -/
def isShared : Value → Bool
  | null | bool _ | mode _ | claim _ | operation _ => true
  | int i => -5 ≤ i && i ≤ 256
  | text s => s.toList.all (fun c => c.toNat < 256) && s.length ≤ 1
  | tuple vs => vs.isEmpty
  | _ => false

/-- Whether two values are certainly one object, also where that shows only by their number. -/
def isOne (v w : Value) : Bool :=
  v.identical w || (v.isShared && v.agrees w)

end Value

end FunctionCatalog
