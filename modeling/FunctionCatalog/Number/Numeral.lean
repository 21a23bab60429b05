import FunctionCatalog.Number.Decimal

/-
  FunctionCatalog: written numbers.
  A numeral is an optional sign, decimal digits of any script with at most one point and at least
  one digit beside it, and an optional exponent. `Numeral.scan` takes the longest numeral at the
  front of a text and always takes something (`length_scan_lt`).
-/

namespace FunctionCatalog
open FunctionCatalog.Text

/-- A number as values know it: whole or binary64. -/
inductive Number where
  | int (i : Int)
  | double (x : Binary64)
deriving DecidableEq

structure Numeral where
  negative : Bool
  whole : List Nat
  fraction : Option (List Nat)
  exponent : Option Int
deriving DecidableEq

namespace Numeral

/-- The leading decimal digits, and what follows them. -/
def takeDigits : List Char → List Nat × List Char
  | [] => ([], [])
  | c :: cs =>
    match decimalDigit? c with
    | some d => (d :: (takeDigits cs).1, (takeDigits cs).2)
    | none => ([], c :: cs)

/-- Whether a minus sign leads, and what follows the sign. -/
def takeSign : List Char → Bool × List Char
  | '-' :: cs => (true, cs)
  | '+' :: cs => (false, cs)
  | cs => (false, cs)

/-- An exponent, when its mark is followed by a digit. -/
def takeExponent : List Char → Option Int × List Char
  | [] => (none, [])
  | c :: cs =>
    if c = 'e' || c = 'E' then
      let (negative, signed) := takeSign cs
      match takeDigits signed with
      | ([], _) => (none, c :: cs)
      | (d :: ds, rest) =>
        let power : Int := ofDigits (d :: ds)
        (some (if negative then -power else power), rest)
    else (none, c :: cs)

/-- The digits about the point: there is at least one. -/
def takeBody (cs : List Char) : Option (List Nat × Option (List Nat) × List Char) :=
  match takeDigits cs with
  | ([], '.' :: rest) =>
    match takeDigits rest with
    | ([], _) => none
    | (d :: ds, rest) => some ([], some (d :: ds), rest)
  | ([], _) => none
  | (w, '.' :: rest) => some (w, some (takeDigits rest).1, (takeDigits rest).2)
  | (w, rest) => some (w, none, rest)

/-- The longest numeral at the front of a text, and what follows it. -/
def scan (cs : List Char) : Option (Numeral × List Char) :=
  let (negative, unsigned) := takeSign cs
  match takeBody unsigned with
  | none => none
  | some (whole, fraction, rest) =>
    let (exponent, rest) := takeExponent rest
    some (⟨negative, whole, fraction, exponent⟩, rest)

/-- A numeral without a point and an exponent is whole. -/
def isWhole (n : Numeral) : Bool :=
  n.fraction.isNone && n.exponent.isNone

/-- The binary64 number nearest to what a numeral writes. -/
def toDouble (n : Numeral) : Binary64 :=
  let fraction := n.fraction.getD []
  let decimal : Decimal :=
    ⟨ofDigits (n.whole ++ fraction), n.exponent.getD 0 - (fraction.length : Int)⟩
  decimal.nearest n.negative

/-- The number that a numeral writes; none for a whole number of too many digits. -/
def value? (n : Numeral) : Option Number :=
  if n.isWhole then
    if Number.digitLimit < n.whole.length then none
    else
      let i : Int := ofDigits n.whole
      some (.int (if n.negative then -i else i))
  else some (.double n.toDouble)

theorem length_takeDigits (cs : List Char) :
    (takeDigits cs).1.length + (takeDigits cs).2.length = cs.length := by
  induction cs with
  | nil => rfl
  | cons c cs ih =>
    unfold takeDigits
    split
    · simp only [List.length_cons]; omega
    · simp

theorem length_takeSign_le (cs : List Char) : (takeSign cs).2.length ≤ cs.length := by
  unfold takeSign
  split <;> simp

theorem length_takeExponent_le (cs : List Char) : (takeExponent cs).2.length ≤ cs.length := by
  cases cs with
  | nil => simp [takeExponent]
  | cons c cs =>
    have hs := length_takeSign_le cs
    have hd := length_takeDigits (takeSign cs).2
    rw [takeExponent]
    split
    · dsimp only
      split
      · simp
      · next heq =>
        rw [heq] at hd
        simp only [List.length_cons] at hd ⊢
        omega
    · simp

theorem length_takeBody_lt {cs : List Char} {whole : List Nat} {fraction : Option (List Nat)}
    {rest : List Char} (h : takeBody cs = some (whole, fraction, rest)) :
    rest.length < cs.length := by
  have hd := length_takeDigits cs
  unfold takeBody at h
  split at h
  · next inner heq =>
    have hi := length_takeDigits inner
    rw [heq] at hd
    split at h
    · simp at h
    · next heq' =>
      rw [heq'] at hi
      simp only [Option.some.injEq, Prod.mk.injEq] at h
      obtain ⟨_, _, rfl⟩ := h
      simp only [List.length_cons, List.length_nil] at hd hi
      omega
  · simp at h
  · next w inner _ heq =>
    have hi := length_takeDigits inner
    rw [heq] at hd
    simp only [Option.some.injEq, Prod.mk.injEq] at h
    obtain ⟨_, _, rfl⟩ := h
    simp only [List.length_cons] at hd
    omega
  · next hnil _ heq =>
    rw [heq] at hd
    simp only [Option.some.injEq, Prod.mk.injEq] at h
    obtain ⟨rfl, _, rfl⟩ := h
    have := List.length_pos_iff.2 hnil
    dsimp only at hd
    omega

theorem length_scan_lt {cs rest : List Char} {n : Numeral} (h : scan cs = some (n, rest)) :
    rest.length < cs.length := by
  unfold scan at h
  have hs := length_takeSign_le cs
  dsimp only at h
  split at h
  · simp at h
  · next hb =>
    have hlt := length_takeBody_lt hb
    simp only [Option.some.injEq, Prod.mk.injEq] at h
    obtain ⟨_, rfl⟩ := h
    have he := length_takeExponent_le
    exact Nat.lt_of_le_of_lt (he _) (Nat.lt_of_lt_of_le hlt hs)

end Numeral

end FunctionCatalog
