import FunctionCatalog.Number.Numeral
import FunctionCatalog.Text.Blank
import FunctionCatalog.Text.LowerCase

/-
  FunctionCatalog: numbers that stand alone in a text.
  White space around them is ignored, though not the information separators, and single underscores
  may separate digits.
-/

namespace FunctionCatalog.Number
open FunctionCatalog.Text

/-- White space that may stand around a number. -/
def isSpace (c : Char) : Bool :=
  isBlank c && !('\x1c' ≤ c && c ≤ '\x1f')

/-- A text without the space around it. -/
def strip (cs : List Char) : List Char :=
  ((cs.dropWhile isSpace).reverse.dropWhile isSpace).reverse

/-- Removes the underscores between digits; none when one stands anywhere else. -/
def dropSeparators (before : Option Char) : List Char → Option (List Char)
  | [] => some []
  | '_' :: cs =>
    if (before.bind decimalDigit?).isSome && (cs.head?.bind decimalDigit?).isSome then
      dropSeparators (some '_') cs
    else none
  | c :: cs => (dropSeparators (some c) cs).map (c :: ·)

/-- The numeral that a whole text is. -/
def numeral? (text : String) : Option Numeral := do
  match Numeral.scan (← dropSeparators none (strip text.toList)) with
  | some (n, []) => some n
  | _ => none

/-- Reads a whole number. -/
def readInt? (text : String) : Option Int := do
  match ← (← numeral? text).value? with
  | .int i => some i
  | .double _ => none

/-- The numbers that are written as words. -/
def wordDouble? (text : String) : Option Binary64 :=
  let (negative, word) := Numeral.takeSign (strip text.toList)
  match lower (String.ofList word) with
  | "nan" => some (.nan 0)
  | "inf" => some (.infinity negative)
  | "infinity" => some (.infinity negative)
  | _ => none

/-- Reads a binary64 number. -/
def readDouble? (text : String) : Option Binary64 :=
  match wordDouble? text with
  | some x => some x
  | none => (numeral? text).map Numeral.toDouble

end FunctionCatalog.Number
