import FunctionCatalog.Number.Binary64
import FunctionCatalog.Number.Digits

/-
  FunctionCatalog: decimals and binary64 numbers.
  `Decimal.nearest` reads a decimal as the nearest binary64 number. `Binary64.shortest` is the other
  way: of all decimals that are read as the number it has the fewest digits, and of those it is the
  nearest. `Binary64.text` lays it out.
-/

namespace FunctionCatalog

/-- The decimal `coefficient * 10 ^ exponent`. -/
structure Decimal where
  coefficient : Nat
  exponent : Int
deriving DecidableEq

/-- The ratio that a decimal is. -/
def Decimal.ratio (d : Decimal) : Nat × Nat :=
  if 0 ≤ d.exponent then (d.coefficient * Nat.pow 10 d.exponent.toNat, 1)
  else (d.coefficient, Nat.pow 10 (-d.exponent).toNat)

/-- The binary64 number nearest to a decimal. Magnitudes beyond `10 ^ 400` and below `10 ^ -330`
are not worked out: they are infinite and zero. -/
def Decimal.nearest (negative : Bool) (d : Decimal) : Binary64 :=
  if d.coefficient = 0 then .zero negative
  else if 400 < d.exponent then .infinity negative
  else if d.exponent + (d.coefficient.log2 / 3 + 1 : Nat) < -330 then .zero negative
  else .ofRatio negative d.ratio.1 d.ratio.2

namespace Binary64

/-- The decimal with the exact magnitude of a finite number. -/
def exactDecimal (x : Binary64) : Decimal :=
  if 0 ≤ x.scale then ⟨x.mantissa * Nat.pow 2 x.scale.toNat, 0⟩
  else ⟨x.mantissa * Nat.pow 5 (-x.scale).toNat, x.scale⟩

/-- A decimal that is read as the magnitude of `x`. -/
def reads (x : Binary64) (d : Decimal) : Bool :=
  d.nearest false == x.abs

/-- The multiple of `10 ^ e` nearest to `x` that is read as `x`, if a neighbour of `x` among these
multiples is. -/
def onGrid? (x : Binary64) (e : Int) : Option Decimal :=
  let (num, den) := x.ratio
  let (num, den) :=
    if 0 ≤ e then (num, den * Nat.pow 10 e.toNat) else (num * Nat.pow 10 (-e).toNat, den)
  let below : Decimal := ⟨num / den, e⟩
  let above : Decimal := ⟨num / den + 1, e⟩
  match x.reads below, x.reads above with
  | true, true => some (if roundHalfEven num den = num / den then below else above)
  | true, false => some below
  | false, true => some above
  | false, false => none

/-- Tries the grids `10 ^ e`, `10 ^ (e - 1)` and so on, coarse ones first. -/
def shortestFrom (x : Binary64) : Nat → Int → Decimal
  | 0, _ => x.exactDecimal
  | steps + 1, e =>
    match x.onGrid? e with
    | some d => d
    | none => shortestFrom x steps (e - 1)

/-- The decimal of fewest digits that is read as the magnitude of a finite number other than zero,
and of these the nearest. -/
def shortest (x : Binary64) : Decimal :=
  let size : Int := (x.ratio.1.log2 : Int) - x.ratio.2.log2
  shortestFrom x 60 ((if 0 ≤ size then size / 3 else size * 3 / 10) + 2)

/-- Which numbers are written with their point in place, and how wide an exponent is at least. -/
structure Layout where
  smallest : Int
  bound : Int
  exponentWidth : Nat

/-- The point stands in place from `0.0001` to below `1e16`; exponents have two digits or more. -/
def layout : Layout := ⟨-4, 16, 2⟩

def zeros (n : Nat) : List Char := List.replicate n '0'

/-- The digits `ds` with their first one at the power `lead` of ten, the point in place and at least
one digit on either side of it. -/
def positional (ds : List Char) (lead : Int) : List Char :=
  if 0 ≤ lead then
    let whole := lead.toNat + 1
    let rest := ds.drop whole
    ds.take whole ++ zeros (whole - ds.length) ++ '.' :: (if rest.isEmpty then ['0'] else rest)
  else '0' :: '.' :: zeros ((-lead).toNat - 1) ++ ds

/-- The digits `ds` with their first one at the power `lead` of ten, as a multiple of that power. -/
def scientific (ds : List Char) (lead : Int) : List Char :=
  let power := Number.natChars lead.natAbs
  let sign := if lead < 0 then '-' else '+'
  ds.take 1 ++ (if ds.length ≤ 1 then [] else '.' :: ds.drop 1) ++
    'e' :: sign :: zeros (layout.exponentWidth - power.length) ++ power

/-- The written form of a magnitude. -/
def magnitudeChars (x : Binary64) : List Char :=
  if x.isZero then "0.0".toList
  else
    let d := x.shortest
    let ds := Number.natChars d.coefficient
    let lead := d.exponent + (ds.length : Int) - 1
    if layout.smallest ≤ lead && lead < layout.bound then positional ds lead
    else scientific ds lead

def chars (x : Binary64) : List Char :=
  if x.isNaN then "nan".toList
  else
    let size := if x.isInfinite then "inf".toList else x.magnitudeChars
    if x.negative then '-' :: size else size

/-- The written form of a number: the fewest digits that read back as it. -/
def text (x : Binary64) : String :=
  String.ofList x.chars

end Binary64

end FunctionCatalog
