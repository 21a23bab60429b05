import FunctionCatalog.Proofs.Number.Rounding

/-
  FunctionCatalog: the shortest decimal of a binary64 number is read as that number.
  A decimal is only taken from a grid when it is read so; when no grid has one, the exact decimal is
  taken, which is not rounded at all (`nearest_exactDecimal`). Reading keeps the sign
  (`nearest_shortest`), and a decimal with more zeros is read like the one without
  (`Decimal.nearest_shift`).
-/

namespace FunctionCatalog

namespace Decimal

variable {d : Decimal} {negative : Bool}

theorem nearest_of_bounds (hne : d.coefficient ≠ 0) (hhigh : d.exponent ≤ 400)
    (hlow : -330 ≤ d.exponent + (d.coefficient.log2 / 3 + 1 : Nat)) :
    d.nearest negative = .ofRatio negative d.ratio.1 d.ratio.2 := by
  rw [nearest, if_neg hne, if_neg (by omega), if_neg (by omega)]

theorem ratio_pos (d : Decimal) : 0 < d.ratio.2 := by
  unfold ratio
  split
  · exact Nat.one_pos
  · exact Nat.pow_pos (by decide)

/-- A power of ten that moves into the coefficient changes nothing within the range of doubles. -/
theorem nearest_shift (negative : Bool) {c k : Nat} (hc : c ≠ 0) (hk : k ≤ 400) :
    nearest negative ⟨c * 10 ^ (k + 1), -1⟩ = nearest negative ⟨c, k⟩ := by
  have hpow : (10 : Nat) ^ (k + 1) ≠ 0 := (Nat.pow_pos (by decide)).ne'
  have hleft : nearest negative ⟨c * 10 ^ (k + 1), -1⟩ =
      .ofRatio negative (c * 10 ^ (k + 1)) (10 ^ 1) :=
    nearest_of_bounds (d := ⟨c * 10 ^ (k + 1), -1⟩) (Nat.mul_ne_zero hc hpow)
      (by dsimp only; omega) (by dsimp only; omega)
  have hright : nearest negative ⟨c, k⟩ = .ofRatio negative (c * 10 ^ k) 1 := by
    have hbounds : nearest negative ⟨c, k⟩ =
        .ofRatio negative (ratio ⟨c, k⟩).1 (ratio ⟨c, k⟩).2 :=
      nearest_of_bounds (d := ⟨c, k⟩) hc (by dsimp only; omega) (by dsimp only; omega)
    have hratio : ratio ⟨c, k⟩ = (c * 10 ^ k, 1) := by simp [ratio]
    rw [hbounds, hratio]
  rw [hleft, hright]
  refine Binary64.ofRatio_congr negative ?_ (by decide) (by decide) ?_
  · exact Nat.pos_of_ne_zero (Nat.mul_ne_zero hc hpow)
  · rw [Nat.pow_succ, Nat.pow_one, Nat.mul_one, Nat.mul_assoc]

end Decimal

namespace Binary64

variable {x : Binary64} {m : Nat} {q : Int} {num den : Nat}

/-! ## The sign is kept -/

/-- The number of the same magnitude with a sign. -/
def withSign (negative : Bool) (x : Binary64) : Binary64 :=
  { x with negative }

theorem withSign_pack (negative : Bool) (m : Nat) (q : Int) :
    (pack false m q).withSign negative = pack negative m q := by
  unfold pack
  by_cases hm : m < Nat.pow 2 52
  · rw [if_pos hm, if_pos hm]
    rfl
  · rw [if_neg hm, if_neg hm]
    generalize (if m < Nat.pow 2 53 then (m, q) else (Nat.pow 2 52, q + 1)) = r
    obtain ⟨m', q'⟩ := r
    dsimp only
    split <;> rfl

theorem withSign_ofRatio (negative : Bool) (num den : Nat) :
    (ofRatio false num den).withSign negative = ofRatio negative num den := by
  unfold ofRatio
  split
  · rfl
  · dsimp only
    split
    · exact withSign_pack negative _ _
    · exact withSign_pack negative _ _

theorem withSign_nearest (negative : Bool) (d : Decimal) :
    (d.nearest false).withSign negative = d.nearest negative := by
  unfold Decimal.nearest
  split
  · rfl
  · split
    · rfl
    · split
      · rfl
      · exact withSign_ofRatio negative _ _

/-! ## Finite numbers -/

theorem exponent_ne_of_isFinite (h : x.isFinite = true) : x.exponent.val < 2047 := by
  have hne : x.exponent ≠ 2047 := by simpa [isFinite] using h
  have hval : x.exponent.val ≠ 2047 := fun heq => hne (Fin.ext heq)
  omega

theorem mantissa_lt (x : Binary64) : x.mantissa < 2 ^ 53 := by
  have hfraction : x.fraction.val < 2 ^ 52 := x.fraction.isLt
  unfold mantissa
  simp only [Nat.pow_eq]
  split <;> omega

/-- A mantissa of fewer than 53 bits belongs to the least unit. -/
theorem scale_eq_or_le (x : Binary64) : x.scale = -1074 ∨ 2 ^ 52 ≤ x.mantissa := by
  unfold scale mantissa
  split
  · exact .inl rfl
  · exact .inr (Nat.le_add_right _ _)

theorem neg_le_scale (x : Binary64) : -1074 ≤ x.scale := by
  unfold scale
  split
  · exact le_refl _
  · next hne =>
    have hpos : x.exponent.val ≠ 0 := fun heq => hne (Fin.ext heq)
    omega

/-- A finite number is packed of its own mantissa and scale. -/
theorem pack_mantissa (h : x.isFinite = true) (negative : Bool) :
    pack negative x.mantissa x.scale = x.withSign negative := by
  have hexponent := exponent_ne_of_isFinite h
  obtain ⟨sign, exponent, fraction⟩ := x
  have hfraction : fraction.val < 2 ^ 52 := fraction.isLt
  unfold pack mantissa scale withSign
  simp only [Nat.pow_eq] at hexponent ⊢
  by_cases hzero : exponent = 0
  · rw [if_pos hzero, if_pos hzero, if_pos hfraction]
    have hself : Fin.ofNat (Nat.pow 2 52) fraction.val = fraction :=
      Fin.ext (Nat.mod_eq_of_lt fraction.isLt)
    rw [hself, hzero]
  · have hbit : ¬ 2 ^ 52 + fraction.val < 2 ^ 52 := by omega
    have hwhole : 2 ^ 52 + fraction.val < 2 ^ 53 := by omega
    have hrange : ¬ (972 : Int) ≤ (exponent.val : Int) - 1075 := by omega
    have hback : ((exponent.val : Int) - 1075 + 1075).toNat = exponent.val := by omega
    have hself : Fin.ofNat 2048 exponent.val = exponent :=
      Fin.ext (Nat.mod_eq_of_lt exponent.isLt)
    have hrest : 2 ^ 52 + fraction.val - 2 ^ 52 = fraction.val := by omega
    have hself' : Fin.ofNat (Nat.pow 2 52) fraction.val = fraction :=
      Fin.ext (Nat.mod_eq_of_lt fraction.isLt)
    simp only [if_neg hzero, if_neg hbit, if_pos hwhole, if_neg hrange, hback, hself, hrest, hself']

theorem mantissa_pos (h : x.isZero = false) : 0 < x.mantissa := by
  unfold mantissa
  split
  · next hzero =>
    refine Nat.pos_of_ne_zero fun hfraction => ?_
    have hx : x.fraction = 0 := Fin.ext hfraction
    simp [isZero, hzero, hx] at h
  · exact Nat.lt_add_right _ (Nat.pow_pos (by decide))

/-! ## The exact decimal -/

theorem le_log2_mul_five (hm : 0 < m) {k : Nat} (hk : k ≤ 1074) :
    (k : Int) ≤ 330 + ((m * 5 ^ k).log2 / 3 + 1 : Nat) := by
  have hfour : 2 ^ (9 * (k / 4)) ≤ 5 ^ k := by
    calc 2 ^ (9 * (k / 4)) = (2 ^ 9) ^ (k / 4) := Nat.pow_mul 2 9 (k / 4)
      _ ≤ (5 ^ 4) ^ (k / 4) := Nat.pow_le_pow_left (by decide) _
      _ = 5 ^ (4 * (k / 4)) := (Nat.pow_mul 5 4 (k / 4)).symm
      _ ≤ 5 ^ k := Nat.pow_le_pow_right (by decide) (by omega)
  have hle : 2 ^ (9 * (k / 4)) ≤ m * 5 ^ k := hfour.trans (Nat.le_mul_of_pos_left _ hm)
  have hne : m * 5 ^ k ≠ 0 := Nat.mul_ne_zero hm.ne' (Nat.pow_pos (by decide)).ne'
  have hlog : 9 * (k / 4) ≤ (m * 5 ^ k).log2 := (Nat.le_log2 hne).2 hle
  omega

theorem exactDecimal_ratio (x : Binary64) :
    (x.exactDecimal.ratio.1 : ℚ) / x.exactDecimal.ratio.2 = x.mantissa * 2 ^ x.scale := by
  unfold exactDecimal
  split
  · next hscale =>
    obtain ⟨k, hk⟩ := Int.eq_ofNat_of_zero_le hscale
    rw [hk]
    simp [Decimal.ratio]
  · next hscale =>
    obtain ⟨k, hk⟩ := Int.eq_ofNat_of_zero_le (Int.le_of_lt (Int.neg_pos_of_neg (not_le.1 hscale)))
    have hneg : x.scale = -(k : ℤ) := by omega
    have hk0 : ¬ (0 : ℤ) ≤ -(k : ℤ) := hneg ▸ hscale
    have hten : (10 : ℚ) ^ k = 2 ^ k * 5 ^ k := by rw [← mul_pow]; norm_num
    simp only [Decimal.ratio, hneg, if_neg hk0, neg_neg, Int.toNat_natCast, Nat.pow_eq,
      Nat.cast_mul, Nat.cast_pow, Nat.cast_ofNat, zpow_neg, zpow_natCast, hten]
    field_simp

/-- What a number is exactly is read as it. -/
theorem nearest_exactDecimal (h : x.isFinite = true) (hx : x.isZero = false) :
    x.exactDecimal.nearest false = x.withSign false := by
  have hm := mantissa_pos hx
  have hnearest : x.exactDecimal.nearest false =
      ofRatio false x.exactDecimal.ratio.1 x.exactDecimal.ratio.2 := by
    apply Decimal.nearest_of_bounds
    · unfold exactDecimal
      split
      · exact Nat.mul_ne_zero hm.ne' (Nat.pow_pos (by decide)).ne'
      · exact Nat.mul_ne_zero hm.ne' (Nat.pow_pos (by decide)).ne'
    · unfold exactDecimal
      split <;> dsimp only <;> omega
    · unfold exactDecimal
      split
      · dsimp only
        omega
      · have hlow := neg_le_scale x
        have hlog := le_log2_mul_five hm (k := (-x.scale).toNat) (by omega)
        simp only [Nat.pow_eq]
        omega
  rw [hnearest, ofRatio_exact false hm (mantissa_lt x) (neg_le_scale x) (scale_eq_or_le x)
    (Decimal.ratio_pos _) (exactDecimal_ratio x), pack_mantissa h]

/-! ## The shortest decimal -/

theorem abs_of_isFinite (h : x.isFinite = true) : x.abs = x.withSign false := by
  have hne : (x.exponent == 2047) = false := by simpa [isFinite] using h
  have hnan : x.isNaN = false := by rw [isNaN, hne, Bool.false_and]
  rw [abs, if_neg (by simp [hnan]), withSign]

theorem reads_of_onGrid? {e : Int} {d : Decimal} (h : x.onGrid? e = some d) :
    x.reads d = true := by
  unfold onGrid? at h
  dsimp only at h
  generalize (if 0 ≤ e then (x.ratio.1, x.ratio.2 * Nat.pow 10 e.toNat)
    else (x.ratio.1 * Nat.pow 10 (-e).toNat, x.ratio.2)) = r at h
  split at h
  · next hbelow habove =>
    obtain rfl := Option.some.inj h
    split
    · exact hbelow
    · exact habove
  · next hbelow _ =>
    obtain rfl := Option.some.inj h
    exact hbelow
  · next _ habove =>
    obtain rfl := Option.some.inj h
    exact habove
  · exact absurd h (Option.some_ne_none d).symm

theorem reads_shortestFrom (h : x.isFinite = true) (hx : x.isZero = false) (steps : Nat) (e : Int) :
    x.reads (x.shortestFrom steps e) = true := by
  induction steps generalizing e with
  | zero =>
    rw [shortestFrom, reads, nearest_exactDecimal h hx, abs_of_isFinite h]
    exact beq_self_eq_true _
  | succ steps ih =>
    rw [shortestFrom]
    split
    · next d hd => exact reads_of_onGrid? hd
    · exact ih (e - 1)

/-- The decimal that is written for a number is read as it, sign included. -/
theorem nearest_shortest (h : x.isFinite = true) (hx : x.isZero = false) :
    x.shortest.nearest x.negative = x := by
  have hreads : x.reads x.shortest = true := reads_shortestFrom h hx _ _
  have hnearest : x.shortest.nearest false = x.withSign false := by
    rw [← abs_of_isFinite h]
    exact eq_of_beq hreads
  rw [← withSign_nearest, hnearest]
  rfl

theorem coefficient_shortest_ne (h : x.isFinite = true) (hx : x.isZero = false) :
    x.shortest.coefficient ≠ 0 := by
  intro hzero
  have hnearest := nearest_shortest h hx
  rw [Decimal.nearest, if_pos hzero] at hnearest
  rw [← hnearest] at hx
  exact absurd hx (by simp [isZero, zero])

end Binary64

end FunctionCatalog
