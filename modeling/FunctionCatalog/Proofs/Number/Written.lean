import FunctionCatalog.Proofs.Number.Grammar
import FunctionCatalog.Proofs.Number.Shortest

/-
  FunctionCatalog: numbers as they are written.
  What is written for a number is one numeral, and it is read as that number. The numeral of a whole
  number is whole (`value?_of_intChars`). That of a finite binary64 number has a point or an
  exponent, so it is never taken for a whole one, and a zero keeps its sign (`exists_writes_chars`).
-/

namespace FunctionCatalog
open FunctionCatalog.Text

namespace Numeral

/-- The characters are the digits from '0' to '9'. -/
def AllDigits (cs : List Char) : Prop :=
  ∀ c ∈ cs, c.isDigit = true

theorem toNat_of_isDigit {c : Char} (h : c.isDigit = true) : 48 ≤ c.toNat ∧ c.toNat ≤ 57 := by
  simpa [Char.isDigit, UInt32.le_iff_toNat_le] using h

theorem exists_decimalDigit? {c : Char} (h : c.isDigit = true) : ∃ d, decimalDigit? c = some d := by
  obtain ⟨hlow, hhigh⟩ := toNat_of_isDigit h
  have hfound : (decimalZeros.find? (fun z => z ≤ c.toNat && c.toNat ≤ z + 9)).isSome = true := by
    refine List.find?_isSome.2 ⟨0x30, by decide, ?_⟩
    simp only [Bool.and_eq_true, decide_eq_true_eq]
    omega
  obtain ⟨z, hz⟩ := Option.isSome_iff_exists.1 hfound
  exact ⟨c.toNat - z, by rw [decimalDigit?, hz]; rfl⟩

variable {cs ds rest : List Char}

theorem AllDigits.append (hc : AllDigits cs) (hd : AllDigits ds) : AllDigits (cs ++ ds) := by
  intro c h
  rcases List.mem_append.1 h with h | h
  · exact hc c h
  · exact hd c h

theorem AllDigits.sublist (hc : AllDigits cs) (h : ds.Sublist cs) : AllDigits ds :=
  fun c hd => hc c (h.subset hd)

theorem decimalDigit?_digitChar {d : Nat} (h : d < 10) :
    decimalDigit? (Nat.digitChar d) = some d := by
  revert d
  decide

theorem allDigits_natChars (n : Nat) : AllDigits (Number.natChars n) := by
  intro c hc
  obtain ⟨d, hd, rfl⟩ := List.mem_map.1 hc
  have hall : ∀ e < 10, (Nat.digitChar e).isDigit = true := by decide
  exact hall d (Number.lt_ten_of_mem_digitsOf hd)

theorem allDigits_zeros (n : Nat) : AllDigits (Binary64.zeros n) := by
  intro c hc
  rw [List.eq_of_mem_replicate hc]
  decide

theorem AllDigits.writes (hcs : AllDigits cs) : WritesDigits (cs.filterMap decimalDigit?) cs := by
  induction cs with
  | nil => rfl
  | cons c cs ih =>
    obtain ⟨d, hd⟩ := exists_decimalDigit? (hcs c List.mem_cons_self)
    have hrest := ih (fun x hx => hcs x (List.mem_cons_of_mem c hx))
    rw [List.filterMap_cons_some hd, WritesDigits, List.map_cons, List.map_cons, hd, hrest]

theorem filterMap_ne_nil (hcs : AllDigits cs) (hne : cs ≠ []) :
    cs.filterMap decimalDigit? ≠ [] := by
  cases cs with
  | nil => exact absurd rfl hne
  | cons c cs =>
    obtain ⟨d, hd⟩ := exists_decimalDigit? (hcs c List.mem_cons_self)
    rw [List.filterMap_cons_some hd]
    exact List.cons_ne_nil _ _

theorem filterMap_natChars (n : Nat) :
    (Number.natChars n).filterMap decimalDigit? = Number.digitsOf n := by
  rw [Number.natChars, List.filterMap_map]
  have hall : ∀ d ∈ Number.digitsOf n, d < 10 := fun d hd => Number.lt_ten_of_mem_digitsOf hd
  generalize Number.digitsOf n = digits at hall
  induction digits with
  | nil => rfl
  | cons d digits ih =>
    have hd : (decimalDigit? ∘ Nat.digitChar) d = some d :=
      decimalDigit?_digitChar (hall d List.mem_cons_self)
    rw [List.filterMap_cons_some hd, ih (fun e he => hall e (List.mem_cons_of_mem d he))]

/-- A numeral is written with a minus or without a sign. -/
theorem writes_of_parts {whole : List Nat} {fraction : Option (List Nat)} {exponent : Option Int}
    {b e : List Char} (negative : Bool) (hb : WritesBody whole fraction b)
    (he : WritesExponent exponent e) :
    Writes ⟨negative, whole, fraction, exponent⟩
      (if negative then '-' :: (b ++ e) else b ++ e) := by
  cases negative with
  | false => exact .mk .absent hb he
  | true => exact .mk .minus hb he

/-! ## Whole numbers -/

theorem writes_intChars (i : Int) :
    Writes ⟨i < 0, Number.digitsOf i.natAbs, none, none⟩ (Number.intChars i) := by
  have hdigits := (allDigits_natChars i.natAbs).writes
  rw [filterMap_natChars] at hdigits
  have hwrites := writes_of_parts (i < 0) (.whole hdigits (Number.digitsOf_ne_nil _)) .absent
  simpa [Number.intChars] using hwrites

/-- A whole number that may be printed is read with its value. -/
theorem value?_of_intChars {i : Int}
    (h : (Number.natChars i.natAbs).length ≤ Number.digitLimit) :
    value? ⟨i < 0, Number.digitsOf i.natAbs, none, none⟩ = some (.int i) := by
  rw [Number.natChars, List.length_map] at h
  have hlimit : ¬ Number.digitLimit < (Number.digitsOf i.natAbs).length := Nat.not_lt.2 h
  have hwhole : isWhole ⟨i < 0, Number.digitsOf i.natAbs, none, none⟩ = true := rfl
  rw [value?, if_pos hwhole, if_neg hlimit, Number.ofDigits_digitsOf]
  by_cases hneg : i < 0
  · have habs : -(i.natAbs : Int) = i := by omega
    simp only [hneg, decide_true, if_true, habs]
  · have habs : (i.natAbs : Int) = i := by omega
    simp only [hneg, decide_false, Bool.false_eq_true, if_false, habs]

/-! ## Values of digits -/

/-- The number that the digits among the characters write. -/
def digitsValue (cs : List Char) : Nat :=
  ofDigits (cs.filterMap decimalDigit?)

theorem digitsValue_natChars (n : Nat) : digitsValue (Number.natChars n) = n := by
  rw [digitsValue, filterMap_natChars, Number.ofDigits_digitsOf]

theorem filterMap_zeros (n : Nat) :
    (Binary64.zeros n).filterMap decimalDigit? = List.replicate n 0 := by
  have hzero : decimalDigit? '0' = some 0 := by decide
  rw [Binary64.zeros, List.filterMap_replicate_of_some hzero]

/-- Zeros in front do not count. -/
theorem digitsValue_zeros_append (n : Nat) (cs : List Char) :
    digitsValue (Binary64.zeros n ++ cs) = digitsValue cs := by
  rw [digitsValue, digitsValue, List.filterMap_append, filterMap_zeros]
  induction n with
  | zero => rfl
  | succ n ih =>
    rw [List.replicate_succ, List.cons_append, ofDigits, List.foldl_cons]
    exact ih

/-- Each zero behind is a factor of ten. -/
theorem digitsValue_append_zeros (cs : List Char) (n : Nat) :
    digitsValue (cs ++ Binary64.zeros n) = digitsValue cs * 10 ^ n := by
  rw [digitsValue, digitsValue, List.filterMap_append, filterMap_zeros]
  induction n with
  | zero => simp
  | succ n ih =>
    rw [List.replicate_succ', ← List.append_assoc, Number.ofDigits_append_singleton, ih,
      Nat.add_zero, Nat.pow_succ, Nat.mul_left_comm, Nat.mul_comm 10]

theorem length_filterMap (hcs : AllDigits cs) :
    (cs.filterMap decimalDigit?).length = cs.length := by
  induction cs with
  | nil => rfl
  | cons c cs ih =>
    obtain ⟨d, hd⟩ := exists_decimalDigit? (hcs c List.mem_cons_self)
    rw [List.filterMap_cons_some hd, List.length_cons, List.length_cons,
      ih (fun x hx => hcs x (List.mem_cons_of_mem c hx))]

/-! ## Binary64 numbers -/

/-- An exponent with a sign, and its power of ten. -/
inductive ExponentForm : Int → List Char → Prop
  | plus {cs : List Char} (hcs : AllDigits cs) (hne : cs ≠ []) :
      ExponentForm (digitsValue cs) ('e' :: '+' :: cs)
  | minus {cs : List Char} (hcs : AllDigits cs) (hne : cs ≠ []) :
      ExponentForm (-(digitsValue cs : Int)) ('e' :: '-' :: cs)

/-- Digits with a point among them, an exponent behind them or both, and their decimal. -/
inductive DoubleForm : Decimal → List Char → Prop
  | point {w f : List Char} (hw : AllDigits w) (hne : w ≠ []) (hf : AllDigits f) :
      DoubleForm ⟨digitsValue (w ++ f), -f.length⟩ (w ++ '.' :: f)
  | both {w f e : List Char} {power : Int} (hw : AllDigits w) (hne : w ≠ []) (hf : AllDigits f)
      (he : ExponentForm power e) :
      DoubleForm ⟨digitsValue (w ++ f), power - f.length⟩ (w ++ '.' :: (f ++ e))
  | exponent {w e : List Char} {power : Int} (hw : AllDigits w) (hne : w ≠ [])
      (he : ExponentForm power e) : DoubleForm ⟨digitsValue w, power⟩ (w ++ e)

variable {d : Decimal} {power : Int} {e : List Char}

theorem ExponentForm.writes (he : ExponentForm power e) : WritesExponent (some power) e := by
  cases he with
  | plus hcs hne => exact .present (.inl rfl) .plus hcs.writes (filterMap_ne_nil hcs hne)
  | minus hcs hne => exact .present (.inl rfl) .minus hcs.writes (filterMap_ne_nil hcs hne)

/-- A form is one numeral that is not whole and has its decimal. -/
theorem DoubleForm.exists_writes (h : DoubleForm d cs) (negative : Bool) :
    ∃ n : Numeral, n.Writes (if negative then '-' :: cs else cs) ∧ n.isWhole = false ∧
      n.toDouble = d.nearest negative := by
  cases h with
  | @point w f hw hne hf =>
    have hbody := WritesBody.point hw.writes hf.writes (.inl (filterMap_ne_nil hw hne))
    refine ⟨_, by simpa using writes_of_parts negative hbody .absent, rfl, ?_⟩
    rw [toDouble, digitsValue, List.filterMap_append]
    simp only [Option.getD_some, Option.getD_none, length_filterMap hf, Int.zero_sub]
  | @both w f e power hw hne hf he =>
    have hbody := WritesBody.point hw.writes hf.writes (.inl (filterMap_ne_nil hw hne))
    refine ⟨_, by simpa using writes_of_parts negative hbody he.writes, rfl, ?_⟩
    rw [toDouble, digitsValue, List.filterMap_append]
    simp only [Option.getD_some, length_filterMap hf]
  | @exponent w e power hw hne he =>
    have hbody := WritesBody.whole hw.writes (filterMap_ne_nil hw hne)
    refine ⟨_, writes_of_parts negative hbody he.writes, rfl, ?_⟩
    rw [toDouble, digitsValue]
    simp only [Option.getD_some, Option.getD_none, List.append_nil, List.length_nil,
      Int.natCast_zero, Int.sub_zero]

end Numeral

namespace Binary64
open Numeral

variable {ds : List Char} {lead : Int} {c : Nat}

theorem allDigits_zero : AllDigits ['0'] :=
  allDigits_zeros 1

theorem natChars_ne_nil (c : Nat) : Number.natChars c ≠ [] := by
  simp [Number.natChars, Number.digitsOf_ne_nil]

/-- Where all digits are before the point, the zero behind it moves the power of ten. -/
theorem exists_doubleForm_of_le (hds : AllDigits ds) (hne : ds ≠ []) (hvalue : digitsValue ds ≠ 0)
    (hlow : 0 ≤ lead) (hlead : lead ≤ 400) (hrest : ds.length ≤ lead.toNat + 1) :
    ∃ d, DoubleForm d (positional ds lead) ∧
      ∀ negative, d.nearest negative =
        Decimal.nearest negative ⟨digitsValue ds, lead + 1 - ds.length⟩ := by
  obtain ⟨k, hk⟩ := Nat.exists_eq_add_of_le hrest
  have hlength : 0 < ds.length := List.length_pos_of_ne_nil hne
  have hzeros : lead.toNat + 1 - ds.length = k := by omega
  have hpower : lead + 1 - ds.length = k := by omega
  have hchars : positional ds lead = (ds ++ zeros k) ++ '.' :: ['0'] := by
    unfold positional
    dsimp only
    rw [if_pos hlow, List.drop_eq_nil_of_le hrest, List.isEmpty_nil, if_pos rfl,
      List.take_of_length_le hrest, hzeros]
  have hdigits : ds ++ zeros k ++ ['0'] = ds ++ zeros (k + 1) := by
    rw [List.append_assoc, zeros, zeros, List.replicate_succ']
  rw [hchars]
  refine ⟨_, .point (hds.append (allDigits_zeros k)) (List.append_ne_nil_of_left_ne_nil hne _)
    allDigits_zero, fun negative => ?_⟩
  rw [hpower, hdigits, digitsValue_append_zeros]
  exact Decimal.nearest_shift negative hvalue (by omega)

theorem doubleForm_of_lt (hds : AllDigits ds) (hlow : 0 ≤ lead)
    (hrest : lead.toNat + 1 < ds.length) :
    DoubleForm ⟨digitsValue ds, lead + 1 - ds.length⟩ (positional ds lead) := by
  have hw_ne : ds.take (lead.toNat + 1) ≠ [] := by
    cases ds with
    | nil => cases hrest
    | cons d ds => simp
  have hsome : (ds.drop (lead.toNat + 1)).isEmpty = false := by
    rw [List.isEmpty_eq_false_iff, ne_eq, List.drop_eq_nil_iff]
    exact Nat.not_le.2 hrest
  have hzeros : lead.toNat + 1 - ds.length = 0 := by omega
  have hchars : positional ds lead =
      ds.take (lead.toNat + 1) ++ '.' :: ds.drop (lead.toNat + 1) := by
    unfold positional
    dsimp only
    rw [if_pos hlow, hsome, if_neg Bool.false_ne_true, hzeros, zeros, List.replicate_zero,
      List.append_nil]
  have hpower : -((ds.drop (lead.toNat + 1)).length : Int) = lead + 1 - ds.length := by
    rw [List.length_drop]
    omega
  have hform := DoubleForm.point (hds.sublist (List.take_sublist (lead.toNat + 1) ds)) hw_ne
    (hds.sublist (List.drop_sublist (lead.toNat + 1) ds))
  rw [List.take_append_drop, hpower] at hform
  rw [hchars]
  exact hform

/-- A magnitude below one is written with zeros before its digits. -/
theorem doubleForm_of_neg (hds : AllDigits ds) (hlow : lead < 0) :
    DoubleForm ⟨digitsValue ds, lead + 1 - ds.length⟩ (positional ds lead) := by
  have hchars : positional ds lead = ['0'] ++ '.' :: (zeros ((-lead).toNat - 1) ++ ds) := by
    unfold positional
    rw [if_neg (Int.not_le.2 hlow)]
    rfl
  have hpower : -((zeros ((-lead).toNat - 1) ++ ds).length : Int) = lead + 1 - ds.length := by
    rw [List.length_append, zeros, List.length_replicate]
    omega
  have hdigits : digitsValue (['0'] ++ (zeros ((-lead).toNat - 1) ++ ds)) = digitsValue ds := by
    have hzero := digitsValue_zeros_append 1 (zeros ((-lead).toNat - 1) ++ ds)
    exact hzero.trans (digitsValue_zeros_append _ ds)
  have hform := DoubleForm.point allDigits_zero (List.cons_ne_nil _ _)
    ((allDigits_zeros ((-lead).toNat - 1)).append hds)
  rw [hpower, hdigits] at hform
  rw [hchars]
  exact hform

/-- Digits with their point in place are read like the digits at their power of ten. -/
theorem exists_doubleForm_positional (hds : AllDigits ds) (hne : ds ≠ [])
    (hvalue : digitsValue ds ≠ 0) (hlead : lead ≤ 400) :
    ∃ d, DoubleForm d (positional ds lead) ∧
      ∀ negative, d.nearest negative =
        Decimal.nearest negative ⟨digitsValue ds, lead + 1 - ds.length⟩ := by
  by_cases hlow : 0 ≤ lead
  · by_cases hrest : ds.length ≤ lead.toNat + 1
    · exact exists_doubleForm_of_le hds hne hvalue hlow hlead hrest
    · exact ⟨_, doubleForm_of_lt hds hlow (Nat.not_le.1 hrest), fun negative => rfl⟩
  · exact ⟨_, doubleForm_of_neg hds (Int.not_le.1 hlow), fun negative => rfl⟩

theorem exponentForm_power (lead : Int) :
    ExponentForm lead ('e' :: (if lead < 0 then '-' else '+') ::
      (zeros (layout.exponentWidth - (Number.natChars lead.natAbs).length) ++
        Number.natChars lead.natAbs)) := by
  have hpower : AllDigits (zeros (layout.exponentWidth - (Number.natChars lead.natAbs).length) ++
      Number.natChars lead.natAbs) := (allDigits_zeros _).append (allDigits_natChars _)
  have hpower_ne : zeros (layout.exponentWidth - (Number.natChars lead.natAbs).length) ++
      Number.natChars lead.natAbs ≠ [] :=
    List.append_ne_nil_of_right_ne_nil _ (natChars_ne_nil _)
  by_cases hlead : lead < 0
  · have hform := ExponentForm.minus hpower hpower_ne
    rw [digitsValue_zeros_append, digitsValue_natChars] at hform
    have habs : -(lead.natAbs : Int) = lead := by omega
    rw [habs] at hform
    rw [if_pos hlead]
    exact hform
  · have hform := ExponentForm.plus hpower hpower_ne
    rw [digitsValue_zeros_append, digitsValue_natChars] at hform
    have habs : (lead.natAbs : Int) = lead := by omega
    rw [habs] at hform
    rw [if_neg hlead]
    exact hform

theorem doubleForm_scientific (hds : AllDigits ds) (hne : ds ≠ []) (lead : Int) :
    DoubleForm ⟨digitsValue ds, lead + 1 - ds.length⟩ (scientific ds lead) := by
  have hw : AllDigits (ds.take 1) := hds.sublist (List.take_sublist _ _)
  have hw_ne : ds.take 1 ≠ [] := by
    cases ds with
    | nil => exact absurd rfl hne
    | cons d ds => simp
  have hlength : 0 < ds.length := List.length_pos_of_ne_nil hne
  unfold scientific
  dsimp only
  split
  · next hone =>
    have hform := DoubleForm.exponent hds hne (exponentForm_power lead)
    have hpower : lead + 1 - (ds.length : Int) = lead := by omega
    rw [hpower, List.take_of_length_le hone]
    simpa using hform
  · next hmore =>
    have hform := DoubleForm.both hw hw_ne (hds.sublist (List.drop_sublist 1 ds))
      (exponentForm_power lead)
    have hpower : lead - ((ds.drop 1).length : Int) = lead + 1 - ds.length := by
      rw [List.length_drop]
      omega
    rw [List.take_append_drop, hpower] at hform
    simpa using hform

/-- The written magnitude of a finite number is read as that number. -/
theorem exists_doubleForm {x : Binary64} (h : x.isFinite = true) :
    ∃ d, DoubleForm d x.magnitudeChars ∧ d.nearest x.negative = x := by
  unfold magnitudeChars
  by_cases hx : x.isZero = true
  · rw [if_pos hx]
    refine ⟨_, DoubleForm.point (w := ['0']) (f := ['0']) allDigits_zero (by simp) allDigits_zero,
      ?_⟩
    obtain ⟨negative, exponent, fraction⟩ := x
    obtain ⟨rfl, rfl⟩ : exponent = 0 ∧ fraction = 0 := by simpa [isZero] using hx
    rfl
  · rw [if_neg hx]
    have hnonzero : x.isZero = false := Bool.eq_false_of_not_eq_true hx
    have hds := allDigits_natChars x.shortest.coefficient
    have hne := natChars_ne_nil x.shortest.coefficient
    have hread := nearest_shortest h hnonzero
    have hvalue := digitsValue_natChars x.shortest.coefficient
    have hdecimal : (⟨digitsValue (Number.natChars x.shortest.coefficient),
        x.shortest.exponent + ((Number.natChars x.shortest.coefficient).length : Int) - 1 + 1 -
          (Number.natChars x.shortest.coefficient).length⟩ : Decimal) = x.shortest := by
      have hexponent : x.shortest.exponent + ((Number.natChars x.shortest.coefficient).length : Int)
          - 1 + 1 - (Number.natChars x.shortest.coefficient).length = x.shortest.exponent := by
        omega
      rw [hvalue, hexponent]
    dsimp only
    split
    · next hplace =>
      have hlead : x.shortest.exponent + ((Number.natChars x.shortest.coefficient).length : Int) - 1
          ≤ 400 := by
        obtain ⟨-, hbound⟩ := Bool.and_eq_true_iff.1 hplace
        have hlt : x.shortest.exponent + ((Number.natChars x.shortest.coefficient).length : Int) - 1
            < 16 := of_decide_eq_true hbound
        omega
      obtain ⟨d, hform, hnearest⟩ := exists_doubleForm_positional hds hne
        (by rw [hvalue]; exact coefficient_shortest_ne h hnonzero) hlead
      rw [hdecimal] at hnearest
      exact ⟨d, hform, (hnearest x.negative).trans hread⟩
    · have hform := doubleForm_scientific hds hne
        (x.shortest.exponent + ((Number.natChars x.shortest.coefficient).length : Int) - 1)
      rw [hdecimal] at hform
      exact ⟨_, hform, hread⟩

/-- What is written for a finite number, by its sign and its magnitude. -/
theorem chars_of_isFinite {x : Binary64} (h : x.isFinite = true) :
    x.chars = if x.negative then '-' :: x.magnitudeChars else x.magnitudeChars := by
  have hexponent : (x.exponent == 2047) = false := by
    simpa [isFinite] using h
  have hnan : x.isNaN = false := by rw [isNaN, hexponent, Bool.false_and]
  have hinfinite : x.isInfinite = false := by rw [isInfinite, hexponent, Bool.false_and]
  simp [chars, hnan, hinfinite]

/-- What is written for a finite number is one numeral, not a whole one, and read as the number. -/
theorem exists_writes_chars {x : Binary64} (h : x.isFinite = true) :
    ∃ n : Numeral, n.Writes x.chars ∧ n.isWhole = false ∧ n.toDouble = x := by
  obtain ⟨d, hform, hread⟩ := exists_doubleForm h
  obtain ⟨n, hwrites, hwhole, hdouble⟩ := hform.exists_writes x.negative
  rw [chars_of_isFinite h]
  exact ⟨n, hwrites, hwhole, hdouble.trans hread⟩

end Binary64

end FunctionCatalog
