import FunctionCatalog.Number.Numeral

/-
  FunctionCatalog: where a numeral ends.
  A character that no numeral goes on with acts like the end of the text: what `Numeral.scan` reads
  before it does not depend on what follows (`scan_append_cons`).
-/

namespace FunctionCatalog.Numeral
open FunctionCatalog.Text

/-- A character that is neither a digit nor a sign, point or exponent mark. -/
structure Ends (p : Char) : Prop where
  noDigit : decimalDigit? p = none
  notMinus : p ≠ '-'
  notPlus : p ≠ '+'
  notPoint : p ≠ '.'
  notMark : ¬ (p = 'e' ∨ p = 'E')

variable {p : Char} {b : List Char}

theorem takeDigits_append_cons (hp : Ends p) (a : List Char) :
    takeDigits (a ++ p :: b) = ((takeDigits a).1, (takeDigits a).2 ++ p :: b) := by
  induction a with
  | nil => simp [takeDigits, hp.noDigit]
  | cons c a ih =>
    rw [List.cons_append, takeDigits, takeDigits]
    split
    · rw [ih]
    · rfl

theorem takeSign_append_cons (hp : Ends p) (a : List Char) :
    takeSign (a ++ p :: b) = ((takeSign a).1, (takeSign a).2 ++ p :: b) := by
  cases a with
  | nil =>
    have hm := hp.notMinus
    have hs := hp.notPlus
    simp [takeSign, hm, hs]
  | cons c a =>
    rw [List.cons_append]
    unfold takeSign
    split <;> split <;> simp_all

theorem takeExponent_append_cons (hp : Ends p) (a : List Char) :
    takeExponent (a ++ p :: b) = ((takeExponent a).1, (takeExponent a).2 ++ p :: b) := by
  cases a with
  | nil =>
    have hm := hp.notMark
    simp [takeExponent, hm]
  | cons c a =>
    rw [List.cons_append, takeExponent, takeExponent]
    split
    · rw [takeSign_append_cons hp]
      dsimp only
      rw [takeDigits_append_cons hp]
      rcases takeDigits (takeSign a).2 with ⟨_ | ⟨d, ds⟩, rest⟩ <;> simp
    · rfl

theorem takeBody_append_cons (hp : Ends p) (a : List Char) :
    takeBody (a ++ p :: b) =
      (takeBody a).map (fun r => (r.1, r.2.1, r.2.2 ++ p :: b)) := by
  have hd := takeDigits_append_cons (b := b) hp a
  have hdot := hp.notPoint
  unfold takeBody
  rw [hd]
  rcases takeDigits a with ⟨_ | ⟨d, ds⟩, _ | ⟨c, rest⟩⟩
  · simp [hdot]
  · by_cases hc : c = '.'
    · subst hc
      have hr := takeDigits_append_cons (b := b) hp rest
      simp only [List.cons_append]
      rw [hr]
      rcases takeDigits rest with ⟨_ | ⟨e, es⟩, rest'⟩ <;> simp
    · simp [hc]
  · simp [hdot]
  · by_cases hc : c = '.'
    · subst hc
      simp [takeDigits_append_cons hp rest]
    · simp [hc]

theorem scan_append_cons (hp : Ends p) (a : List Char) :
    scan (a ++ p :: b) = (scan a).map (fun r => (r.1, r.2 ++ p :: b)) := by
  unfold scan
  rw [takeSign_append_cons hp]
  dsimp only
  rw [takeBody_append_cons hp]
  rcases takeBody (takeSign a).2 with _ | ⟨whole, fraction, rest⟩
  · rfl
  · simp [takeExponent_append_cons hp rest]

end FunctionCatalog.Numeral
