/-
  FunctionCatalog: numbers in the binary64 format.
  A number is given by the three fields of its encoding. Comparison is exact, also against whole
  numbers, and `ofRatio` is the nearest number to a ratio, a tie going to the even neighbour.
-/

namespace FunctionCatalog

/-- A binary64 number: sign, biased exponent and fraction. The exponent field 2047 is kept for the
infinities (fraction zero) and for NaN (any other fraction, which tells two of them apart). -/
structure Binary64 where
  negative : Bool
  exponent : Fin 2048
  fraction : Fin (Nat.pow 2 52)
deriving DecidableEq

namespace Binary64

def zero (negative : Bool) : Binary64 := ⟨negative, 0, 0⟩

def infinity (negative : Bool) : Binary64 := ⟨negative, 2047, 0⟩

/-- The `n`-th NaN. The one of number zero has just been worked out and is not told apart yet. -/
def nan (n : Nat) : Binary64 := ⟨false, 2047, Fin.ofNat _ (n % (Nat.pow 2 52 - 1) + 1)⟩

/-- The one NaN that documents hold. -/
def notNumber : Binary64 := ⟨true, 2047, 1⟩

def isFinite (x : Binary64) : Bool := x.exponent != 2047

def isNaN (x : Binary64) : Bool := x.exponent == 2047 && x.fraction != 0

def isInfinite (x : Binary64) : Bool := x.exponent == 2047 && x.fraction == 0

/-- A finite number is its mantissa times two to its scale, up to its sign. -/
def mantissa (x : Binary64) : Nat :=
  if x.exponent = 0 then x.fraction.val else Nat.pow 2 52 + x.fraction.val

def scale (x : Binary64) : Int :=
  if x.exponent = 0 then -1074 else (x.exponent.val : Int) - 1075

def isZero (x : Binary64) : Bool := x.exponent == 0 && x.fraction == 0

/-- A magnitude; that of a NaN is another NaN. -/
def abs (x : Binary64) : Binary64 := if x.isNaN then nan 0 else { x with negative := false }

def neg (x : Binary64) : Binary64 := { x with negative := !x.negative }

/-- The place of a number among all that are not NaN; the two zeros share one place. -/
def rank (x : Binary64) : Int :=
  let place : Int := (x.exponent.val * Nat.pow 2 52 + x.fraction.val : Nat)
  if x.negative then -place else place

/-- Numeric equality: the zeros are equal and NaN equals nothing. -/
def equal (x y : Binary64) : Bool :=
  !x.isNaN && !y.isNaN && x.rank == y.rank

def less (x y : Binary64) : Bool :=
  !x.isNaN && !y.isNaN && x.rank < y.rank

/-- The magnitude of a finite number as a ratio. -/
def ratio (x : Binary64) : Nat × Nat :=
  if 0 ≤ x.scale then (x.mantissa * Nat.pow 2 x.scale.toNat, 1)
  else (x.mantissa, Nat.pow 2 (-x.scale).toNat)

/-- How a whole number compares with `x`; nothing compares with NaN. -/
def compareInt (i : Int) (x : Binary64) : Option Ordering :=
  if x.isNaN then none
  else if x.isInfinite then some (if x.negative then .gt else .lt)
  else
    let (num, den) := x.ratio
    let signed : Int := if x.negative then -(num : Int) else num
    some (compare (i * den) signed)

/-- The quotient nearest to `num / den`, a half going to the even neighbour. -/
def roundHalfEven (num den : Nat) : Nat :=
  let q := num / den
  let r := num % den
  if 2 * r < den then q
  else if den < 2 * r then q + 1
  else if q % 2 = 0 then q else q + 1

/-- The number with a mantissa of at most `2 ^ 53` at a scale; too large a magnitude is infinite. -/
def pack (negative : Bool) (m : Nat) (q : Int) : Binary64 :=
  if m < Nat.pow 2 52 then ⟨negative, 0, Fin.ofNat _ m⟩
  else
    let (m, q) := if m < Nat.pow 2 53 then (m, q) else (Nat.pow 2 52, q + 1)
    if 972 ≤ q then infinity negative
    else ⟨negative, Fin.ofNat _ (q + 1075).toNat, Fin.ofNat _ (m - Nat.pow 2 52)⟩

/-- `num / den` in units of `2 ^ q`. -/
def inUnits (num den : Nat) (q : Int) : Nat × Nat :=
  if 0 ≤ q then (num, den * Nat.pow 2 q.toNat) else (num * Nat.pow 2 (-q).toNat, den)

/-- The number nearest to the ratio `num / den`, a tie going to the even mantissa. -/
def ofRatio (negative : Bool) (num den : Nat) : Binary64 :=
  if num = 0 then zero negative
  else
    let low := max ((num.log2 : Int) - den.log2 - 53) (-1074)
    let (n, d) := inUnits num den low
    if n / d < Nat.pow 2 53 then pack negative (roundHalfEven n d) low
    else
      let (n, d) := inUnits num den (low + 1)
      pack negative (roundHalfEven n d) (low + 1)

/-- The number nearest to a whole number; infinite when that is out of range. -/
def ofInt (i : Int) : Binary64 :=
  ofRatio (i < 0) i.natAbs 1

/-- The exact sum of two finite numbers in units of the smaller scale. -/
def exactSum (x y : Binary64) : Int × Int :=
  let q := min x.scale y.scale
  let part (z : Binary64) : Int :=
    let m : Int := (z.mantissa * Nat.pow 2 (z.scale - q).toNat : Nat)
    if z.negative then -m else m
  (part x + part y, q)

def add (x y : Binary64) : Binary64 :=
  if x.isNaN || y.isNaN then nan 0
  else if x.isInfinite then (if y.isInfinite && x.negative != y.negative then nan 0 else x)
  else if y.isInfinite then y
  else
    let (s, q) := exactSum x y
    if s = 0 then zero (x.negative && y.negative)
    else
      let (num, den) := inUnits s.natAbs 1 (-q)
      ofRatio (s < 0) num den

def mul (x y : Binary64) : Binary64 :=
  let negative := x.negative != y.negative
  if x.isNaN || y.isNaN then nan 0
  else if x.isInfinite || y.isInfinite then
    (if x.isZero || y.isZero then nan 0 else infinity negative)
  else
    let (a, b) := x.ratio
    let (c, d) := y.ratio
    ofRatio negative (a * c) (b * d)

end Binary64

end FunctionCatalog
