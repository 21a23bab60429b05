import FunctionCatalog.Proofs.Value.Same
import Mathlib.Data.List.Forall2

/-
  FunctionCatalog: simple values.
  Nothing, truth values, numbers other than NaN and texts are simple. Simple values that agree are
  one value, or two zeros of different signs, and in either case they are the same as the same
  values (`Value.same_of_agrees`). So whatever is looked up by simple values is found by all that
  agree with them.
-/

namespace FunctionCatalog

/-! ## Zeros -/

namespace Binary64

variable {x y : Binary64}

/-- How far a number is from the zeros among all that are not NaN. -/
def distance (x : Binary64) : Nat :=
  x.exponent.val * Nat.pow 2 52 + x.fraction.val

theorem eq_of_distance (hsign : x.negative = y.negative) (h : x.distance = y.distance) : x = y := by
  obtain ⟨s, e, f⟩ := x
  obtain ⟨s', e', f'⟩ := y
  have hf := f.isLt
  have hf' := f'.isLt
  simp only [distance, show Nat.pow 2 52 = 4503599627370496 from rfl] at h hf hf'
  obtain rfl : e = e' := Fin.ext (by omega)
  obtain rfl : f = f' := Fin.ext (by omega)
  exact congrArg (fun s => Binary64.mk s e f) hsign

theorem isZero_of_distance (h : x.distance = 0) : x.isZero = true := by
  simp only [distance, show Nat.pow 2 52 = 4503599627370496 from rfl] at h
  rw [isZero, Bool.and_eq_true, beq_iff_eq, beq_iff_eq]
  exact ⟨Fin.ext (by rw [Fin.val_zero]; omega), Fin.ext (by rw [Fin.val_zero]; omega)⟩

/-- Numbers that are equal are one number or two zeros. -/
theorem eq_or_isZero_of_equal (h : x.equal y = true) :
    x = y ∨ x.isZero = true ∧ y.isZero = true := by
  simp only [equal, Bool.and_eq_true, beq_iff_eq] at h
  have hrank : ∀ z : Binary64, z.rank = if z.negative then -(z.distance : Int) else z.distance :=
    fun z => rfl
  have heq := h.2
  rw [hrank, hrank] at heq
  by_cases hsign : x.negative = y.negative
  · refine .inl (eq_of_distance hsign ?_)
    rw [hsign] at heq
    split at heq <;> omega
  · -- Of two places on different sides both are the origin.
    have hzero : x.distance = 0 ∧ y.distance = 0 := by
      rw [Bool.eq_not_of_ne hsign] at heq
      cases hy : y.negative <;> rw [hy] at heq <;>
        simp only [Bool.not_false, Bool.not_true, if_true, Bool.false_eq_true, if_false] at heq <;>
        omega
    exact .inr ⟨isZero_of_distance hzero.1, isZero_of_distance hzero.2⟩

theorem eq_zero_of_isZero (h : x.isZero = true) : x = zero x.negative := by
  simp only [isZero, Bool.and_eq_true, beq_iff_eq] at h
  refine eq_of_distance rfl ?_
  rw [distance, h.1, h.2]
  rfl

/-- A whole number compares with both zeros alike. -/
theorem compareInt_zero (i : Int) (a b : Bool) :
    compareInt i (zero a) = compareInt i (zero b) := by
  have hmantissa : ∀ c, (zero c).mantissa = 0 := fun c => rfl
  have hscale : ∀ c, (zero c).scale = -1074 := fun c => rfl
  obtain ⟨den, hratio⟩ : ∃ den, ∀ c, (zero c).ratio = (0, den) :=
    ⟨_, fun c => by rw [ratio, hmantissa, hscale, if_neg (by decide)]⟩
  simp only [compareInt, hratio]
  cases a <;> cases b <;> rfl

/-- The two zeros are the same as the same numbers. -/
theorem same_zero (a b : Bool) (n : Number) :
    (Number.double (zero a)).same n = (Number.double (zero b)).same n := by
  have hself : ∀ (c : Bool) (y : Binary64),
      (zero c == y || (zero c).equal y) = (!y.isNaN && y.rank == 0) := by
    intro c y
    have hequal : (zero c).equal y = (!y.isNaN && y.rank == 0) := by
      cases c <;> simp [equal, Bool.beq_comm, zero, isNaN, rank]
    by_cases hy : zero c = y
    · rw [← hy]
      cases c <;> decide +kernel
    · rw [hequal, beq_eq_false_iff_ne.2 hy, Bool.false_or]
  cases n with
  | int i => rw [Number.same, Number.same, compareInt_zero i a b]
  | double y => rw [Number.same, Number.same, hself, hself]

end Binary64

/-! ## Simple values -/

namespace Value

variable {v w : Value} {vs ws : List Value}

/-- Nothing, a truth value, a number that is not NaN, or a text. -/
def isSimple : Value → Bool
  | null | bool _ | int _ | text _ | mode _ => true
  | double x => !x.isNaN
  | _ => false

theorem isKey_of_isSimple (hv : v.isSimple = true) : v.isKey = true := by
  cases v <;> first | rfl | cases hv

theorem allKeys_of_isSimple (hvs : ∀ v ∈ vs, v.isSimple = true) : allKeys vs = true := by
  induction vs with
  | nil => rfl
  | cons v vs ih =>
    rw [allKeys, isKey_of_isSimple (hvs v List.mem_cons_self),
      ih fun w hw => hvs w (List.mem_cons_of_mem v hw), Bool.and_self]

/-- Simple values that agree are one value or two zeros. -/
theorem eq_or_zeros_of_agrees (hv : v.isSimple = true) (h : v.agrees w = true) :
    v = w ∨ ∃ a b, v = .double (.zero a) ∧ w = .double (.zero b) := by
  rw [agrees, Bool.and_eq_true, beq_iff_eq] at h
  obtain ⟨hkind, hsame⟩ := h
  cases v with
  | null => cases w <;> simp [Value.same, number?, text?] at hsame ⊢
  | bool b =>
    cases w <;> simp [Value.same, number?, text?, kindText, Number.same] at hkind hsame ⊢
    next c => cases b <;> cases c <;> simp_all
  | int i =>
    cases w <;> simp [Value.same, number?, text?, kindText, Number.same] at hkind hsame ⊢
    exact hsame
  | text s =>
    cases w <;> simp [Value.same, number?, text?, kindText] at hkind hsame ⊢
    exact hsame
  | mode m =>
    cases w <;> simp [Value.same, number?, text?, kindText] at hkind hsame ⊢
    next n => cases m <;> cases n <;> first | rfl | exact absurd hsame (by decide)
  | double x =>
    cases w <;> simp [Value.same, number?, text?, kindText] at hkind hsame
    simp only [Number.same, Bool.or_eq_true, beq_iff_eq] at hsame
    rcases hsame with rfl | hequal
    · exact .inl rfl
    · rcases Binary64.eq_or_isZero_of_equal hequal with rfl | ⟨hx, hy⟩
      · exact .inl rfl
      · exact .inr ⟨_, _, congrArg double (Binary64.eq_zero_of_isZero hx),
          congrArg double (Binary64.eq_zero_of_isZero hy)⟩
  | _ => cases hv

theorem isSimple_of_agrees (hv : v.isSimple = true) (h : v.agrees w = true) :
    w.isSimple = true := by
  rcases eq_or_zeros_of_agrees hv h with rfl | ⟨a, b, rfl, rfl⟩
  · exact hv
  · cases b <;> rfl

/-- Simple values that agree are the same as the same values. -/
theorem same_of_agrees (hv : v.isSimple = true) (h : v.agrees w = true) (u : Value) :
    v.same u = w.same u := by
  rcases eq_or_zeros_of_agrees hv h with rfl | ⟨a, b, rfl, rfl⟩
  · rfl
  · cases u <;> simp only [Value.same, number?, text?, Binary64.same_zero a b]

/-- Whatever is the same as a simple value is simple. -/
theorem isSimple_of_same (hv : v.isSimple = true) (h : v.same w = true) : w.isSimple = true := by
  have hnan : ∀ (n : Number) (y : Binary64), (Value.ofNumber n).isSimple = true →
      n.same (.double y) = true → y.isNaN = false := by
    rintro (i | x) y hn hsame
    · cases hy : y.isNaN with
      | false => rfl
      | true => simp [Number.same, Binary64.compareInt, hy] at hsame
    · simp only [Number.same, Bool.or_eq_true, beq_iff_eq] at hsame
      rcases hsame with rfl | hequal
      · simpa [ofNumber, isSimple] using hn
      · simp only [Binary64.equal, Bool.and_eq_true, Bool.not_eq_true'] at hequal
        exact hequal.1.2
  cases v with
  | null => cases w <;> simp_all [Value.same, number?, text?, isSimple]
  | bool b =>
    cases w <;> simp [Value.same, number?, text?, isSimple] at h ⊢
    exact hnan _ _ rfl h
  | int i =>
    cases w <;> simp [Value.same, number?, text?, isSimple] at h ⊢
    exact hnan _ _ rfl h
  | double x =>
    cases w <;> simp [Value.same, number?, text?, isSimple] at h ⊢
    exact hnan (.double x) _ hv h
  | text s => cases w <;> simp_all [Value.same, number?, text?, isSimple]
  | mode m => cases w <;> simp_all [Value.same, number?, text?, isSimple]
  | _ => cases hv

/-- Two values are equal and of one kind. -/
def Matches (v w : Value) : Prop :=
  v.kindText = w.kindText ∧ v.equal w = true

theorem agrees_of_matches (h : v.Matches w) : v.agrees w = true := by
  obtain ⟨hkind, hequal⟩ := h
  rw [agrees, hkind, beq_self_eq_true, Bool.true_and]
  unfold Value.equal at hequal
  split at hequal
  · simp [Value.same, number?, Number.same, hequal]
  · exact hequal

/-! ### Lists -/

theorem allSame_iff_forall₂ :
    allSame vs ws = true ↔ List.Forall₂ (fun v w => v.same w = true) vs ws := by
  induction vs generalizing ws with
  | nil => cases ws <;> simp [allSame]
  | cons v vs ih => cases ws <;> simp [allSame, ih]

theorem allAgree_iff_forall₂ :
    allAgree vs ws = true ↔ List.Forall₂ (fun v w => v.agrees w = true) vs ws := by
  induction vs generalizing ws with
  | nil => cases ws <;> simp [allAgree]
  | cons v vs ih => cases ws <;> simp [allAgree, ih]

theorem allAgree_of_matches (h : List.Forall₂ Matches vs ws) : allAgree vs ws = true :=
  allAgree_iff_forall₂.2 (h.imp fun _ _ => agrees_of_matches)

/-- What is related to simple values is simple if the relation carries this over. -/
theorem isSimple_of_forall₂ {R : Value → Value → Prop}
    (hR : ∀ {v w}, v.isSimple = true → R v w → w.isSimple = true)
    (hvs : ∀ v ∈ vs, v.isSimple = true) (h : List.Forall₂ R vs ws) :
    ∀ w ∈ ws, w.isSimple = true := by
  induction h with
  | nil => exact hvs
  | cons h _ ih =>
    rw [List.forall_mem_cons] at hvs ⊢
    exact ⟨hR hvs.1 h, ih hvs.2⟩

theorem allSame_of_simple (hvs : ∀ v ∈ vs, v.isSimple = true) (h : allAgree vs ws = true)
    (us : List Value) : allSame vs us = allSame ws us := by
  induction allAgree_iff_forall₂.1 h generalizing us with
  | nil => rfl
  | cons hfirst hrest ih =>
    rw [List.forall_mem_cons] at hvs
    cases us with
    | nil => simp only [allSame]
    | cons u us =>
      simp only [allSame, same_of_agrees hvs.1 hfirst, ih hvs.2 (allAgree_iff_forall₂.2 hrest)]

theorem agrees_of_simple (hv : v.isSimple = true) (h : v.agrees w = true) (u : Value) :
    u.agrees v = u.agrees w := by
  have hkind : v.kindText = w.kindText := by
    rw [agrees, Bool.and_eq_true, beq_iff_eq] at h
    exact h.1
  rw [agrees, agrees, ← same_comm (isKey_of_isSimple hv),
    ← same_comm (isKey_of_isSimple (isSimple_of_agrees hv h)), same_of_agrees hv h, hkind]

/-- What agrees with simple values agrees with all that agree with these. -/
theorem allAgree_of_simple (hvs : ∀ v ∈ vs, v.isSimple = true) (h : allAgree vs ws = true)
    (us : List Value) : allAgree us vs = allAgree us ws := by
  induction allAgree_iff_forall₂.1 h generalizing us with
  | nil => rfl
  | cons hfirst hrest ih =>
    rw [List.forall_mem_cons] at hvs
    cases us with
    | nil => rfl
    | cons u us =>
      simp only [allAgree, agrees_of_simple hvs.1 hfirst,
        ih hvs.2 (allAgree_iff_forall₂.2 hrest)]

end Value

end FunctionCatalog
