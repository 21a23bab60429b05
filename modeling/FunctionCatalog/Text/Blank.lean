/-
  FunctionCatalog: white space, and the cuts of a text that depend on it.
  `trim` drops the blanks at both ends, `words` is the list of the maximal runs without blanks.
-/

namespace FunctionCatalog.Text

/-- White space: tabulators and line ends, the four information separators, and the spaces of
Unicode. -/
def isBlank (c : Char) : Bool :=
  let n := c.toNat
  (0x09 ≤ n && n ≤ 0x0d) || (0x1c ≤ n && n ≤ 0x20) || n == 0x85 || n == 0xa0 || n == 0x1680 ||
    (0x2000 ≤ n && n ≤ 0x200a) || n == 0x2028 || n == 0x2029 || n == 0x202f || n == 0x205f ||
    n == 0x3000

def trimLeft (cs : List Char) : List Char :=
  cs.dropWhile isBlank

def trimRight (cs : List Char) : List Char :=
  (cs.reverse.dropWhile isBlank).reverse

def trim (cs : List Char) : List Char :=
  trimRight (trimLeft cs)

/-- A text is blank when it holds nothing but white space. -/
def allBlank (cs : List Char) : Bool :=
  cs.all isBlank

/-- The pieces between the characters that satisfy `p`; there is always one more piece than there
are such characters. -/
def splitWhere (p : Char → Bool) : List Char → List (List Char)
  | [] => [[]]
  | c :: cs =>
    if p c then [] :: splitWhere p cs
    else match splitWhere p cs with
      | [] => [[c]]
      | piece :: pieces => (c :: piece) :: pieces

/-- The maximal runs without white space. -/
def words (cs : List Char) : List (List Char) :=
  (splitWhere isBlank cs).filter (fun piece => !piece.isEmpty)

end FunctionCatalog.Text
