import FunctionCatalog.Failure
import FunctionCatalog.Text.UpperCase
import FunctionCatalog.Value.Order

/-
  FunctionCatalog: calling functions.
  Arguments follow the values that are bound. An operation refuses arguments of the wrong number or
  kind.
-/

namespace FunctionCatalog

namespace Operation

def number (v : Value) : Except Failure Number :=
  Failure.ofOption .wrongKind v.number?

/-- A whole number as a binary64 number, if it is in range. -/
def toDouble (i : Int) : Except Failure Binary64 :=
  let x := Binary64.ofInt i
  if x.isFinite then .ok x else .error (.call .overflow)

/-- Combines two numbers: whole ones exactly, others as binary64 numbers. -/
def combine (onInt : Int → Int → Int) (onDouble : Binary64 → Binary64 → Binary64) :
    Number → Number → Except Failure Value
  | .int i, .int j => .ok (.int (onInt i j))
  | .double x, .double y => .ok (.double (onDouble x y))
  | .int i, .double y => do .ok (.double (onDouble (← toDouble i) y))
  | .double x, .int j => do .ok (.double (onDouble x (← toDouble j)))

/-- Adds numbers and joins texts and lists. -/
def add (v w : Value) : Except Failure Value :=
  match v, w with
  | .list vs, .list ws => .ok (.list (vs ++ ws))
  | .tuple vs, .tuple ws => .ok (.tuple (vs ++ ws))
  | v, w =>
    match v.text?, w.text? with
    | some s, some t => .ok (.text (s ++ t))
    | _, _ => do combine (· + ·) Binary64.add (← number v) (← number w)

/-- What fits into a machine word counts and measures. -/
def wordBound : Nat := Nat.pow 2 63

/-- What is longer than this is not held in memory. -/
def memoryBound : Nat := Nat.pow 2 33

/-- How often something of a length is repeated: not at all for a negative number. -/
def repetitions (times : Value) : Except Failure Nat :=
  match times.int? with
  | none => .error .wrongKind
  | some i =>
    if -(wordBound : Int) ≤ i && i < wordBound then .ok i.toNat else .error (.call .overflow)

/-- Repeats a list; nothing repeated is nothing, however often. -/
def repeatList {α : Type} (tooLong : CallFault) (times : Value) (xs : List α) :
    Except Failure (List α) := do
  let n ← repetitions times
  if wordBound ≤ n * xs.length then .error (.call tooLong)
  else if memoryBound < n * xs.length then .error (.call .memory)
  else if xs.isEmpty then .ok []
  else .ok (List.replicate n xs).flatten

/-- A text or a list a number of times, if the value is one of these. -/
def repeat? (times v : Value) : Option (Except Failure Value) :=
  match v with
  | .list vs => some ((repeatList .memory times vs).map .list)
  | .tuple vs => some ((repeatList .memory times vs).map .tuple)
  | v => v.text?.map (fun s =>
      (repeatList .overflow times s.toList).map (fun cs => .text (String.ofList cs)))

/-- Multiplies numbers and repeats texts and lists. -/
def multiply (v w : Value) : Except Failure Value :=
  match repeat? w v, repeat? v w with
  | some r, _ => r
  | none, some r => r
  | none, none => do combine (· * ·) Binary64.mul (← number v) (← number w)

def absolute : Value → Except Failure Value
  | .double x => .ok (.double x.abs)
  | v =>
    match v.int? with
    | some i => .ok (.int i.natAbs)
    | none => .error .wrongKind

/-- The first of the values such that no later one stands in the relation to it. -/
def extreme (r : Relation) (args : List Value) : Except Failure Value := do
  let vs ← match args with
    | [] => .error .wrongKind
    | [v] => Failure.ofOption .wrongKind v.items?
    | vs => .ok vs
  match vs with
  | [] => .error (.call .emptyList)
  | v :: vs =>
    vs.foldlM (fun best v =>
      match Value.relates r v best with
      | some true => .ok v
      | some false => .ok best
      | none => .error .wrongKind) v

/-- Rounds to a multiple of `10 ^ places`, a half going to the even neighbour. -/
def roundInt (i : Int) (places : Nat) : Int :=
  if i.natAbs.log2 + 1 < places then 0
  else
  let unit := Nat.pow 10 places
  let size : Int := (Binary64.roundHalfEven i.natAbs unit * unit : Nat)
  if i < 0 then -size else size

/-- Rounds to a number of decimal places. -/
def roundDouble (x : Binary64) (digits : Int) : Except Failure Binary64 :=
  if x.isNaN then .ok (.nan 0)
  else if x.isInfinite || x.isZero || 323 < digits then .ok x
  else if digits < -308 then .ok (.zero x.negative)
  else
    let (num, den) := x.ratio
    let scaled :=
      if 0 ≤ digits then Binary64.roundHalfEven (num * Nat.pow 10 digits.toNat) den
      else Binary64.roundHalfEven num (den * Nat.pow 10 (-digits).toNat)
    let y := Decimal.nearest x.negative ⟨scaled, -digits⟩
    if y.isFinite then .ok y else .error (.call .overflow)

/-- Rounds a binary64 number to a whole one. -/
def roundWhole (x : Binary64) : Except Failure Int :=
  if x.isNaN then .error (.call .notInteger)
  else if x.isInfinite then .error (.call .overflow)
  else
    let (num, den) := x.ratio
    let size : Int := Binary64.roundHalfEven num den
    .ok (if x.negative then -size else size)

/-- Rounds a number; without a number of places the answer is whole. -/
def round (digits v : Value) : Except Failure Value :=
  match v with
  | .double x =>
    match digits with
    | .null => do .ok (.int (← roundWhole x))
    | d =>
      match d.int? with
      | some d => do .ok (.double (← roundDouble x d))
      | none => .error .wrongKind
  | v =>
    match v.int?, digits with
    | some i, .null => .ok (.int i)
    | some i, d =>
      match d.int? with
      | some d => .ok (.int (if 0 ≤ d then i else roundInt i (-d).toNat))
      | none => .error .wrongKind
    | none, _ => .error .wrongKind

def onText (f : String → String) : List Value → Except Failure Value
  | [v] => (Failure.ofOption .wrongKind v.text?).map (fun s => .text (f s))
  | _ => .error .wrongKind

/-- The texts of values one after another. -/
def concatenate (args : List Value) : Except Failure Value := do
  return .text (String.join (← args.mapM (fun v => Failure.ofPrint v.print)))

/-- What an operation makes of its arguments. -/
def apply : Operation → List Value → Except Failure Value
  | abs, [v] => absolute v
  | max, args => extreme .gt args
  | min, args => extreme .lt args
  | upper, args => onText Text.upper args
  | lower, args => onText Text.lower args
  | total, args => args.foldlM add (.int 0)
  | concat, args => concatenate args
  | wrap, [before, after, text] => do add (← add before text) after
  | roundTo, [digits, number] => round digits number
  | repeatText, [times, text] => multiply text times
  | echo, args => .ok (.list args)
  | _, _ => .error .wrongKind

end Operation

/-- Calls whatever can be called. The values bound to a function come before the arguments. -/
def Value.call (f : Value) (args : List Value) : Except Failure Value :=
  match f with
  | .item (.function f) => f.operation.apply (f.parameters ++ args)
  | .operation o => o.apply args
  | _ => .error .wrongKind

end FunctionCatalog
