import FunctionCatalog.Text.Digit

/-
  FunctionCatalog: whole numbers in base ten.
  `digitsOf` writes a number, `Text.ofDigits` reads it back (`ofDigits_digitsOf`).
-/

namespace FunctionCatalog.Number
open FunctionCatalog.Text

/-- The decimal digits of a number, most significant first; zero has the one digit zero. -/
def digitsOf (n : Nat) : List Nat :=
  if n < 10 then [n] else digitsOf (n / 10) ++ [n % 10]
termination_by n

theorem ofDigits_append_singleton (ds : List Nat) (d : Nat) :
    ofDigits (ds ++ [d]) = 10 * ofDigits ds + d := by
  simp [ofDigits]

theorem ofDigits_digitsOf (n : Nat) : ofDigits (digitsOf n) = n := by
  induction n using Nat.strongRecOn with
  | ind n ih =>
    unfold digitsOf
    split
    · simp [ofDigits]
    · rw [ofDigits_append_singleton, ih (n / 10) (by omega)]
      omega

theorem lt_ten_of_mem_digitsOf {n d : Nat} (h : d ∈ digitsOf n) : d < 10 := by
  induction n using Nat.strongRecOn with
  | ind n ih =>
    unfold digitsOf at h
    split at h
    · simp at h; omega
    · rcases List.mem_append.1 h with h | h
      · exact ih (n / 10) (by omega) h
      · simp at h; omega

theorem digitsOf_ne_nil (n : Nat) : digitsOf n ≠ [] := by
  unfold digitsOf
  split <;> simp

def natChars (n : Nat) : List Char :=
  (digitsOf n).map Nat.digitChar

def natText (n : Nat) : String :=
  String.ofList (natChars n)

def intChars (i : Int) : List Char :=
  if i < 0 then '-' :: natChars i.natAbs else natChars i.natAbs

def intText (i : Int) : String :=
  String.ofList (intChars i)

/-- A literal or printed whole number has at most this many digits. -/
def digitLimit : Nat := 4300

end FunctionCatalog.Number
