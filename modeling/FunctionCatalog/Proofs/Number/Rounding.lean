import FunctionCatalog.Number.Decimal
import Mathlib.Algebra.Order.Field.Power
import Mathlib.Algebra.Order.Ring.Rat
import Mathlib.Tactic.FieldSimp
import Mathlib.Tactic.Linarith
import Mathlib.Tactic.Positivity
import Mathlib.Tactic.Ring

/-
  FunctionCatalog: rounding a ratio to a binary64 number.
  `Binary64.ofRatio` looks for the unit in which a ratio has a mantissa of 53 bits, or the least unit
  there is. The unit belongs to the ratio and not to the way it is written (`HasUnit.unique`), so
  equal ratios give the same number (`ofRatio_congr`), and the ratio that a number is gives that
  number (`ofRatio_exact`).
-/

namespace FunctionCatalog.Binary64

/-! ## Halves -/

variable {n d n' d' m : Nat}

/-- Where the remainder lies is told by twice the numerator. -/
theorem roundHalfEven_eq (n d : Nat) :
    roundHalfEven n d =
      if 2 * n < (2 * (n / d) + 1) * d then n / d
      else if (2 * (n / d) + 1) * d < 2 * n then n / d + 1
      else if n / d % 2 = 0 then n / d else n / d + 1 := by
  have hdiv := Nat.div_add_mod n d
  have hmul : (2 * (n / d) + 1) * d = 2 * (d * (n / d)) + d := by ring
  have hlow : 2 * (n % d) < d ↔ 2 * n < (2 * (n / d) + 1) * d := by omega
  have hhigh : d < 2 * (n % d) ↔ (2 * (n / d) + 1) * d < 2 * n := by omega
  simp only [roundHalfEven, hlow, hhigh]

theorem div_eq_of_cross (hd : 0 < d) (hd' : 0 < d') (h : n * d' = n' * d) : n / d = n' / d' := by
  rw [← Nat.mul_div_mul_right n d hd', h, Nat.mul_comm d d', Nat.mul_div_mul_right n' d' hd]

/-- How twice a ratio compares does not depend on the way it is written. -/
theorem lt_iff_of_cross {a : Nat} (hd : 0 < d) (hd' : 0 < d') (h : n * d' = n' * d) :
    (2 * n < a * d ↔ 2 * n' < a * d') ∧ (a * d < 2 * n ↔ a * d' < 2 * n') := by
  have hleft : 2 * n * d' = 2 * n' * d := by rw [Nat.mul_assoc, h, Nat.mul_assoc]
  constructor
  · rw [← Nat.mul_lt_mul_right hd', hleft, Nat.mul_right_comm a, Nat.mul_lt_mul_right hd]
  · rw [← Nat.mul_lt_mul_right hd', hleft, Nat.mul_right_comm a, Nat.mul_lt_mul_right hd]

/-- Equal ratios round alike. -/
theorem roundHalfEven_congr (hd : 0 < d) (hd' : 0 < d') (h : n * d' = n' * d) :
    roundHalfEven n d = roundHalfEven n' d' := by
  rw [roundHalfEven_eq, roundHalfEven_eq, div_eq_of_cross hd hd' h]
  simp only [(lt_iff_of_cross hd hd' h).1, (lt_iff_of_cross hd hd' h).2]

theorem roundHalfEven_mul (m : Nat) (hd : 0 < d) : roundHalfEven (m * d) d = m := by
  have hmod : m * d % d = 0 := Nat.mul_mod_left m d
  rw [roundHalfEven]
  simp only [hmod, Nat.mul_zero, hd, if_true, Nat.mul_div_cancel m hd]

/-! ## Units -/

/-- The ratio `r` has a mantissa below `2 ^ 53` in units of `2 ^ q`, and one of 53 bits unless the
unit is the least there is. -/
structure HasUnit (r : ℚ) (q : ℤ) : Prop where
  least_le : -1074 ≤ q
  lt : r < 2 ^ (53 + q)
  le : q = -1074 ∨ 2 ^ (52 + q) ≤ r

theorem HasUnit.unique {r : ℚ} {q q' : ℤ} (h : HasUnit r q) (h' : HasUnit r q') : q = q' := by
  have hlt : ∀ {p p' : ℤ}, HasUnit r p → HasUnit r p' → ¬ p < p' := by
    intro p p' hp hp' hpp'
    -- in the smaller unit the mantissa would have another bit
    have hle : (2 : ℚ) ^ (52 + p') ≤ r := hp'.le.resolve_left (by have := hp.least_le; omega)
    have hmono : (2 : ℚ) ^ (53 + p) ≤ 2 ^ (52 + p') :=
      zpow_le_zpow_right₀ (by norm_num) (by omega)
    exact absurd hp.lt (not_lt.2 (hmono.trans hle))
  have := hlt h h'
  have := hlt h' h
  omega

variable {num den num' den' : Nat} {q : ℤ}

theorem inUnits_pos (num : Nat) (hden : 0 < den) (q : ℤ) : 0 < (inUnits num den q).2 := by
  unfold inUnits
  split
  · exact Nat.mul_pos hden (Nat.pow_pos (by decide))
  · exact hden

theorem ratio_inUnits (num : Nat) (hden : 0 < den) (q : ℤ) :
    ((inUnits num den q).1 : ℚ) = (num : ℚ) / den / 2 ^ q * (inUnits num den q).2 := by
  have hne : (den : ℚ) ≠ 0 := by exact_mod_cast hden.ne'
  unfold inUnits
  split
  · next hq =>
    obtain ⟨k, rfl⟩ := Int.eq_ofNat_of_zero_le hq
    simp only [Int.toNat_natCast, zpow_natCast, Nat.pow_eq, Nat.cast_mul,
      Nat.cast_pow, Nat.cast_ofNat]
    field_simp
  · next hq =>
    obtain ⟨k, hk⟩ := Int.eq_ofNat_of_zero_le (Int.le_of_lt (Int.neg_pos_of_neg (not_le.1 hq)))
    obtain rfl : q = -(k : ℤ) := by omega
    simp only [neg_neg, Int.toNat_natCast, zpow_neg, zpow_natCast, Nat.pow_eq, Nat.cast_mul,
      Nat.cast_pow, Nat.cast_ofNat]
    field_simp

/-- Whether a quotient in some units is below a bound is a matter of the ratio. -/
theorem inUnits_div_lt (hden : 0 < den) (q : ℤ) (k : Nat) :
    (inUnits num den q).1 / (inUnits num den q).2 < 2 ^ k ↔ (num : ℚ) / den < 2 ^ (k + q) := by
  have hpos := inUnits_pos num hden q
  have hratio := ratio_inUnits num hden q
  have hpos' : (0 : ℚ) < (inUnits num den q).2 := by exact_mod_cast hpos
  have hunit : (0 : ℚ) < 2 ^ q := by positivity
  rw [Nat.div_lt_iff_lt_mul hpos, ← @Nat.cast_lt ℚ, hratio, Nat.cast_mul, Nat.cast_pow,
    Nat.cast_ofNat, mul_lt_mul_iff_left₀ hpos', div_lt_iff₀ hunit, zpow_add₀ (by norm_num),
    zpow_natCast]

theorem inUnits_cross (h : num * den' = num' * den) (q : ℤ) :
    (inUnits num den q).1 * (inUnits num' den' q).2 =
      (inUnits num' den' q).1 * (inUnits num den q).2 := by
  unfold inUnits
  split
  · rw [← Nat.mul_assoc, h, Nat.mul_assoc]
  · rw [Nat.mul_right_comm, h, Nat.mul_right_comm]

/-! ## The number of a ratio -/

theorem ratio_lt (num : Nat) (hden : 0 < den) :
    (num : ℚ) / den < 2 ^ ((num.log2 : ℤ) - den.log2 + 1) := by
  have hnum : (num : ℚ) < 2 ^ (num.log2 + 1) := by exact_mod_cast Nat.lt_log2_self
  have hle : (2 : ℚ) ^ den.log2 ≤ den := by exact_mod_cast Nat.log2_self_le hden.ne'
  have hden' : (0 : ℚ) < den := by exact_mod_cast hden
  have hsplit : (2 : ℚ) ^ ((num.log2 : ℤ) - den.log2 + 1) * 2 ^ den.log2 = 2 ^ (num.log2 + 1) := by
    rw [← zpow_natCast, ← zpow_natCast, ← zpow_add₀ (by norm_num)]
    congr 1
    push_cast
    ring
  rw [div_lt_iff₀ hden']
  calc (num : ℚ) < 2 ^ (num.log2 + 1) := hnum
    _ = 2 ^ ((num.log2 : ℤ) - den.log2 + 1) * 2 ^ den.log2 := hsplit.symm
    _ ≤ 2 ^ ((num.log2 : ℤ) - den.log2 + 1) * den := by gcongr

theorem le_ratio (hnum : 0 < num) (hden : 0 < den) :
    (2 : ℚ) ^ ((num.log2 : ℤ) - den.log2 - 1) ≤ num / den := by
  have hle : (2 : ℚ) ^ num.log2 ≤ num := by exact_mod_cast Nat.log2_self_le hnum.ne'
  have hlt : (den : ℚ) ≤ 2 ^ (den.log2 + 1) := by
    exact_mod_cast (Nat.lt_log2_self (n := den)).le
  have hden' : (0 : ℚ) < den := by exact_mod_cast hden
  have hsplit : (2 : ℚ) ^ ((num.log2 : ℤ) - den.log2 - 1) * 2 ^ (den.log2 + 1) = 2 ^ num.log2 := by
    rw [← zpow_natCast, ← zpow_natCast, ← zpow_add₀ (by norm_num)]
    congr 1
    push_cast
    ring
  rw [le_div_iff₀ hden']
  calc (2 : ℚ) ^ ((num.log2 : ℤ) - den.log2 - 1) * den
      ≤ 2 ^ ((num.log2 : ℤ) - den.log2 - 1) * 2 ^ (den.log2 + 1) := by gcongr
    _ = 2 ^ num.log2 := hsplit
    _ ≤ num := hle

/-- The unit that is tried first is that of the ratio, or the one below it. -/
theorem exists_ofRatio (negative : Bool) (hnum : 0 < num) (hden : 0 < den) :
    ∃ q, HasUnit ((num : ℚ) / den) q ∧ ofRatio negative num den =
      pack negative (roundHalfEven (inUnits num den q).1 (inUnits num den q).2) q := by
  have hlt := ratio_lt num hden
  have hle := le_ratio hnum hden
  obtain ⟨low, hlow⟩ : ∃ low : ℤ, low = max ((num.log2 : ℤ) - den.log2 - 53) (-1074) := ⟨_, rfl⟩
  have hfine : (inUnits num den low).1 / (inUnits num den low).2 < 2 ^ 53 ↔
      (num : ℚ) / den < 2 ^ (53 + low) := inUnits_div_lt hden low 53
  unfold ofRatio
  rw [if_neg hnum.ne']
  simp only [← hlow, Nat.pow_eq]
  by_cases hsmall : (num : ℚ) / den < 2 ^ (53 + low)
  · refine ⟨low, ⟨by omega, hsmall, ?_⟩, if_pos (hfine.2 hsmall)⟩
    by_cases hleast : low = -1074
    · exact .inl hleast
    · have heq : (52 : ℤ) + low = (num.log2 : ℤ) - den.log2 - 1 := by omega
      exact .inr (heq ▸ hle)
  · have hbound : (num.log2 : ℤ) - den.log2 + 1 ≤ 53 + (low + 1) := by omega
    have hbit : (52 : ℤ) + (low + 1) = 53 + low := by ring
    refine ⟨low + 1, ⟨by omega, ?_, .inr ?_⟩, if_neg fun hcontra => hsmall (hfine.1 hcontra)⟩
    · exact hlt.trans_le (zpow_le_zpow_right₀ (by norm_num) hbound)
    · rw [hbit]
      exact not_lt.1 hsmall

/-- A ratio is rounded in its unit. -/
theorem ofRatio_eq (negative : Bool) (hnum : 0 < num) (hden : 0 < den)
    (h : HasUnit ((num : ℚ) / den) q) :
    ofRatio negative num den =
      pack negative (roundHalfEven (inUnits num den q).1 (inUnits num den q).2) q := by
  obtain ⟨p, hp, heq⟩ := exists_ofRatio negative hnum hden
  rw [heq, hp.unique h]

/-- Equal ratios give the same number. -/
theorem ofRatio_congr (negative : Bool) (hnum : 0 < num) (hden : 0 < den) (hden' : 0 < den')
    (h : num * den' = num' * den) : ofRatio negative num den = ofRatio negative num' den' := by
  have hnum' : 0 < num' := by
    have hpos : 0 < num' * den := h ▸ Nat.mul_pos hnum hden'
    exact Nat.pos_of_mul_pos_right hpos
  have hratio : (num : ℚ) / den = (num' : ℚ) / den' := by
    have hne : (den : ℚ) ≠ 0 := by exact_mod_cast hden.ne'
    have hne' : (den' : ℚ) ≠ 0 := by exact_mod_cast hden'.ne'
    rw [div_eq_div_iff hne hne']
    exact_mod_cast h
  obtain ⟨q, hq, heq⟩ := exists_ofRatio negative hnum hden
  rw [heq, ofRatio_eq negative hnum' hden' (hratio ▸ hq),
    roundHalfEven_congr (inUnits_pos num hden q) (inUnits_pos num' hden' q) (inUnits_cross h q)]

/-- A ratio that is a mantissa in its unit is not rounded at all. -/
theorem ofRatio_exact (negative : Bool) (hm : 0 < m) (hlt : m < 2 ^ 53) (hq : -1074 ≤ q)
    (hbits : q = -1074 ∨ 2 ^ 52 ≤ m) (hden : 0 < den) (h : (num : ℚ) / den = m * 2 ^ q) :
    ofRatio negative num den = pack negative m q := by
  have hunit : HasUnit ((num : ℚ) / den) q := by
    have hpos : (0 : ℚ) < 2 ^ q := by positivity
    have hlt' : (m : ℚ) < 2 ^ (53 : ℕ) := by exact_mod_cast hlt
    refine ⟨hq, ?_, hbits.imp_right fun hle => ?_⟩
    · rw [h, zpow_add₀ (by norm_num)]
      exact mul_lt_mul_of_pos_right hlt' hpos
    · have hle' : (2 : ℚ) ^ (52 : ℕ) ≤ m := by exact_mod_cast hle
      rw [h, zpow_add₀ (by norm_num)]
      exact mul_le_mul_of_nonneg_right hle' hpos.le
  have hnum : 0 < num := by
    refine Nat.pos_of_ne_zero fun hzero => ?_
    have hpos : (0 : ℚ) < m * 2 ^ q := by positivity
    rw [hzero, Nat.cast_zero, zero_div] at h
    exact absurd h hpos.ne
  have hexact : (inUnits num den q).1 = m * (inUnits num den q).2 := by
    have hratio := ratio_inUnits num hden q
    rw [h, mul_div_assoc, div_self (by positivity), mul_one] at hratio
    exact_mod_cast hratio
  rw [ofRatio_eq negative hnum hden hunit, hexact, roundHalfEven_mul m (inUnits_pos num hden q)]

end FunctionCatalog.Binary64
