import FunctionCatalog.Proofs.Number.Numeral

/-
  FunctionCatalog: which texts are numerals.
  `Numeral.Writes` says how a numeral is written, part by part and without a scanner. What
  `Numeral.scan` takes is a numeral, and no longer one stands at the front of the same text
  (`scan_eq_some_iff`).
-/

namespace FunctionCatalog.Numeral
open FunctionCatalog.Text

/-- The characters are decimal digits, of any script, with these values. -/
def WritesDigits (ds : List Nat) (cs : List Char) : Prop :=
  cs.map decimalDigit? = ds.map some

inductive WritesSign : Bool → List Char → Prop
  | absent : WritesSign false []
  | plus : WritesSign false ['+']
  | minus : WritesSign true ['-']

/-- Digits, or a point with digits on at least one side of it. -/
inductive WritesBody : List Nat → Option (List Nat) → List Char → Prop
  | whole {ds : List Nat} {cs : List Char} (h : WritesDigits ds cs) (hne : ds ≠ []) :
      WritesBody ds none cs
  | point {ds es : List Nat} {a b : List Char} (ha : WritesDigits ds a) (hb : WritesDigits es b)
      (hne : ds ≠ [] ∨ es ≠ []) : WritesBody ds (some es) (a ++ '.' :: b)

/-- The integer that digits with a sign write. -/
def signed (negative : Bool) (ds : List Nat) : Int :=
  if negative then -(ofDigits ds : Int) else ofDigits ds

inductive WritesExponent : Option Int → List Char → Prop
  | absent : WritesExponent none []
  | present {mark : Char} {negative : Bool} {ds : List Nat} {s d : List Char}
      (hmark : mark = 'e' ∨ mark = 'E') (hs : WritesSign negative s) (hd : WritesDigits ds d)
      (hne : ds ≠ []) : WritesExponent (some (signed negative ds)) (mark :: (s ++ d))

/-- The characters write the numeral: its sign, its digits and its exponent. -/
inductive Writes : Numeral → List Char → Prop
  | mk {negative : Bool} {whole : List Nat} {fraction : Option (List Nat)} {exponent : Option Int}
      {s b e : List Char} (hs : WritesSign negative s) (hb : WritesBody whole fraction b)
      (he : WritesExponent exponent e) :
      Writes ⟨negative, whole, fraction, exponent⟩ (s ++ (b ++ e))

/-- The numeral is written at the front of a text, and no longer one is. -/
structure Longest (n : Numeral) (front rest : List Char) : Prop where
  writes : n.Writes front
  longest : ∀ m a b, front ++ rest = a ++ b → Writes m a → a.length ≤ front.length

/-! ## Digits -/

section Digits

variable {ds : List Nat} {c : Char} {cs rest : List Char}

theorem WritesDigits.ne_nil (h : WritesDigits ds cs) (hne : ds ≠ []) : cs ≠ [] := by
  rintro rfl
  exact hne (List.map_eq_nil_iff.1 h.symm)

theorem takeDigits_of_none (h : decimalDigit? c = none) (cs : List Char) :
    takeDigits (c :: cs) = ([], c :: cs) := by
  rw [takeDigits, h]

theorem exists_of_takeDigits {ds : List Nat} {rest : List Char}
    (h : takeDigits cs = (ds, rest)) : ∃ a, cs = a ++ rest ∧ WritesDigits ds a := by
  induction cs generalizing ds with
  | nil =>
    cases h
    exact ⟨[], rfl, rfl⟩
  | cons c cs ih =>
    rw [takeDigits] at h
    split at h
    · next d hd =>
      obtain ⟨rfl, rfl⟩ := Prod.mk.inj h
      obtain ⟨a, hcs, ha⟩ := ih rfl
      refine ⟨c :: a, congrArg (c :: ·) hcs, ?_⟩
      rw [WritesDigits, List.map_cons, List.map_cons, hd, ha]
    · cases h
      exact ⟨[], rfl, rfl⟩

theorem suffix_takeDigits (cs : List Char) : (takeDigits cs).2 <:+ cs := by
  obtain ⟨a, ha, -⟩ := exists_of_takeDigits (Prod.eta (takeDigits cs)).symm
  exact ⟨a, ha.symm⟩

/-- Digits are taken together with those that follow. -/
theorem takeDigits_append_of_writes (h : WritesDigits ds cs) (rest : List Char) :
    takeDigits (cs ++ rest) = (ds ++ (takeDigits rest).1, (takeDigits rest).2) := by
  induction cs generalizing ds with
  | nil =>
    obtain rfl := List.map_eq_nil_iff.1 h.symm
    rfl
  | cons c cs ih =>
    obtain ⟨d, es, rfl, hd, hes⟩ := List.map_eq_cons_iff.1 h.symm
    rw [List.cons_append, takeDigits, ← hd]
    dsimp only
    rw [ih hes.symm]
    rfl

theorem takeDigits_of_writes (h : WritesDigits ds cs)
    (hrest : ∀ c ∈ rest.head?, decimalDigit? c = none) :
    takeDigits (cs ++ rest) = (ds, rest) := by
  rw [takeDigits_append_of_writes h]
  cases rest with
  | nil => simp [takeDigits]
  | cons c rest => simp [takeDigits_of_none (hrest c rfl)]

end Digits

/-! ## Signs -/

section Signs

variable {negative : Bool} {s cs rest : List Char}

theorem exists_of_takeSign (h : takeSign cs = (negative, rest)) :
    ∃ s, cs = s ++ rest ∧ WritesSign negative s := by
  unfold takeSign at h
  split at h
  · cases h
    exact ⟨['-'], rfl, .minus⟩
  · cases h
    exact ⟨['+'], rfl, .plus⟩
  · cases h
    exact ⟨[], rfl, .absent⟩

theorem takeSign_of_writes (h : WritesSign negative s)
    (hrest : ∀ c ∈ rest.head?, c ≠ '-' ∧ c ≠ '+') : takeSign (s ++ rest) = (negative, rest) := by
  cases h with
  | plus => rfl
  | minus => rfl
  | absent =>
    rw [List.nil_append]
    unfold takeSign
    split
    · exact absurd rfl (hrest '-' rfl).1
    · exact absurd rfl (hrest '+' rfl).2
    · rfl

theorem not_sign_of_digit {c : Char} {d : Nat} (h : decimalDigit? c = some d) :
    c ≠ '-' ∧ c ≠ '+' := by
  have hminus : decimalDigit? '-' = none := by decide
  have hplus : decimalDigit? '+' = none := by decide
  constructor
  · rintro rfl
    simp [hminus] at h
  · rintro rfl
    simp [hplus] at h

theorem WritesDigits.not_sign {ds : List Nat} {d : List Char} (h : WritesDigits ds d)
    (hne : ds ≠ []) (rest : List Char) : ∀ c ∈ (d ++ rest).head?, c ≠ '-' ∧ c ≠ '+' := by
  cases d with
  | nil => exact absurd rfl (h.ne_nil hne)
  | cons c d =>
    obtain ⟨e, es, -, he, -⟩ := List.map_eq_cons_iff.1 h.symm
    intro x hx
    cases hx
    exact not_sign_of_digit he.symm

end Signs

/-! ## The digits about the point -/

theorem decimalDigit?_point {cs : List Char} :
    ∀ c ∈ ('.' :: cs).head?, decimalDigit? c = none := by
  intro c hc
  obtain rfl : '.' = c := Option.some.inj hc
  decide

section Bodies

variable {whole : List Nat} {fraction : Option (List Nat)} {b cs rest : List Char}

theorem WritesBody.not_sign (h : WritesBody whole fraction b) (rest : List Char) :
    ∀ c ∈ (b ++ rest).head?, c ≠ '-' ∧ c ≠ '+' := by
  cases h with
  | whole h hne => exact h.not_sign hne rest
  | point ha hb hne =>
    rw [List.append_assoc]
    by_cases hwhole : whole = []
    · subst hwhole
      obtain rfl := List.map_eq_nil_iff.1 ha
      intro c hc
      obtain rfl : '.' = c := Option.some.inj hc
      decide
    · exact ha.not_sign hwhole _

theorem exists_of_takeBody (h : takeBody cs = some (whole, fraction, rest)) :
    ∃ b, cs = b ++ rest ∧ WritesBody whole fraction b := by
  unfold takeBody at h
  split at h
  · next inner hinner =>
    obtain ⟨a, rfl, ha⟩ := exists_of_takeDigits hinner
    split at h
    · cases h
    · next d ds rest' hd =>
      cases h
      obtain ⟨b, rfl, hb⟩ := exists_of_takeDigits hd
      exact ⟨a ++ '.' :: b, by simp, .point ha hb (.inr (List.cons_ne_nil _ _))⟩
  · cases h
  · next w inner hne hinner =>
    cases h
    obtain ⟨a, rfl, ha⟩ := exists_of_takeDigits hinner
    obtain ⟨b, hb, hdigits⟩ := exists_of_takeDigits (Prod.eta (takeDigits inner)).symm
    refine ⟨a ++ '.' :: b, ?_, .point ha hdigits (.inl hne)⟩
    rw [List.append_assoc, List.cons_append, ← hb]
  · next w hne _ hinner =>
    cases h
    obtain ⟨a, rfl, ha⟩ := exists_of_takeDigits hinner
    exact ⟨a, rfl, .whole ha hne⟩

/-- Digits about a point end where no digit follows, and digits alone where no point does. -/
theorem takeBody_of_writes (h : WritesBody whole fraction b)
    (hrest : ∀ c ∈ rest.head?, decimalDigit? c = none ∧ c ≠ '.') :
    takeBody (b ++ rest) = some (whole, fraction, rest) := by
  have hdigits : ∀ c ∈ rest.head?, decimalDigit? c = none := fun c hc => (hrest c hc).1
  cases h with
  | whole h hne =>
    unfold takeBody
    rw [takeDigits_of_writes h hdigits]
    split
    · next heq => exact absurd (Prod.mk.inj heq).1 hne
    · next heq => exact absurd (Prod.mk.inj heq).1 hne
    · next w inner _ heq =>
      obtain ⟨-, rfl⟩ := Prod.mk.inj heq
      exact absurd rfl (hrest '.' rfl).2
    · next heq =>
      cases heq
      rfl
  | @point es a b ha hb hne =>
    have hpoint : takeDigits (a ++ '.' :: (b ++ rest)) = (whole, '.' :: (b ++ rest)) :=
      takeDigits_of_writes ha decimalDigit?_point
    have hfraction := takeDigits_of_writes hb hdigits
    unfold takeBody
    rw [List.append_assoc, List.cons_append, hpoint]
    cases whole with
    | nil =>
      cases es with
      | nil => exact absurd rfl (hne.resolve_left (fun h => h rfl))
      | cons e es => simp [hfraction]
    | cons d whole => simp [hfraction]

/-- At the front of any text at least the digits about the point are taken. -/
theorem exists_takeBody_append (h : WritesBody whole fraction b) (rest : List Char) :
    ∃ w f r, takeBody (b ++ rest) = some (w, f, r) ∧ r <:+ rest := by
  have hsuffix := suffix_takeDigits rest
  cases h with
  | whole h hne =>
    obtain ⟨d, whole, rfl⟩ := List.exists_cons_of_ne_nil hne
    unfold takeBody
    rw [takeDigits_append_of_writes h]
    rcases hdigits : takeDigits rest with ⟨es, _ | ⟨c, inner⟩⟩
    · exact ⟨_, _, _, rfl, List.nil_suffix⟩
    · rw [hdigits] at hsuffix
      by_cases hc : c = '.'
      · subst hc
        exact ⟨_, _, _, rfl,
          ((suffix_takeDigits inner).trans (List.suffix_cons _ _)).trans hsuffix⟩
      · refine ⟨d :: (whole ++ es), none, c :: inner, ?_, hsuffix⟩
        simp [hc]
  | @point es a b ha hb hne =>
    have hpoint : takeDigits (a ++ '.' :: (b ++ rest)) = (whole, '.' :: (b ++ rest)) :=
      takeDigits_of_writes ha decimalDigit?_point
    have hfraction := takeDigits_append_of_writes hb rest
    unfold takeBody
    rw [List.append_assoc, List.cons_append, hpoint]
    cases whole with
    | nil =>
      cases es with
      | nil => exact absurd rfl (hne.resolve_left (fun h => h rfl))
      | cons e es => exact ⟨[], some (e :: es ++ (takeDigits rest).1), _, by simp [hfraction], hsuffix⟩
    | cons d whole =>
      exact ⟨d :: whole, some (es ++ (takeDigits rest).1), _, by simp [hfraction], hsuffix⟩

end Bodies

/-! ## Exponents -/

section Exponents

variable {exponent : Option Int} {e cs rest : List Char}

/-- No exponent starts with a digit or a point. -/
theorem WritesExponent.head (h : WritesExponent exponent e) :
    ∀ c ∈ e.head?, decimalDigit? c = none ∧ c ≠ '.' := by
  cases h with
  | absent => simp
  | present hmark hs hd hne =>
    intro c hc
    cases hc
    rcases hmark with rfl | rfl <;> decide

theorem exists_of_takeExponent (h : takeExponent cs = (exponent, rest)) :
    ∃ e, cs = e ++ rest ∧ WritesExponent exponent e := by
  cases cs with
  | nil =>
    cases h
    exact ⟨[], rfl, .absent⟩
  | cons c cs =>
    rw [takeExponent] at h
    split at h
    · next hmark =>
      rcases hsign : takeSign cs with ⟨negative, signed⟩
      rw [hsign] at h
      obtain ⟨s, rfl, hs⟩ := exists_of_takeSign hsign
      dsimp only at h
      split at h
      · cases h
        exact ⟨[], rfl, .absent⟩
      · next d ds rest' hdigits =>
        cases h
        obtain ⟨a, rfl, ha⟩ := exists_of_takeDigits hdigits
        exact ⟨c :: (s ++ a), by simp, .present (by simpa using hmark) hs ha (List.cons_ne_nil _ _)⟩
    · cases h
      exact ⟨[], rfl, .absent⟩

theorem suffix_takeExponent (cs : List Char) : (takeExponent cs).2 <:+ cs := by
  obtain ⟨e, he, -⟩ := exists_of_takeExponent (Prod.eta (takeExponent cs)).symm
  exact ⟨e, he.symm⟩

/-- At the front of any text at least the exponent is taken. -/
theorem suffix_takeExponent_append (h : WritesExponent exponent e) (rest : List Char) :
    (takeExponent (e ++ rest)).2 <:+ rest := by
  cases h with
  | absent => exact suffix_takeExponent rest
  | @present mark negative ds s d hmark hs hd hne =>
    obtain ⟨x, ds, rfl⟩ := List.exists_cons_of_ne_nil hne
    have hmark' : (mark = 'e' || mark = 'E') = true := by simpa using hmark
    have hsign := takeSign_of_writes hs (hd.not_sign hne rest)
    rw [List.cons_append, takeExponent, if_pos hmark', List.append_assoc, hsign]
    dsimp only
    rw [takeDigits_append_of_writes hd]
    exact suffix_takeDigits rest

theorem takeExponent_of_writes (h : WritesExponent exponent e) :
    takeExponent e = (exponent, []) := by
  cases h with
  | absent => rfl
  | @present mark negative ds s d hmark hs hd hne =>
    have hmark' : (mark = 'e' || mark = 'E') = true := by simpa using hmark
    have hsign := takeSign_of_writes hs (hd.not_sign hne [])
    have hdigits : takeDigits (d ++ []) = (ds, []) := takeDigits_of_writes hd (by simp)
    rw [List.append_nil] at hsign hdigits
    obtain ⟨x, ds, rfl⟩ := List.exists_cons_of_ne_nil hne
    rw [takeExponent, if_pos hmark', hsign]
    dsimp only
    rw [hdigits]
    rfl

end Exponents

/-! ## Numerals -/

variable {n m : Numeral} {cs front rest : List Char}

theorem exists_of_scan_some (h : scan cs = some (n, rest)) :
    ∃ front, cs = front ++ rest ∧ n.Writes front := by
  unfold scan at h
  rcases hsign : takeSign cs with ⟨negative, unsigned⟩
  rw [hsign] at h
  dsimp only at h
  split at h
  · cases h
  · next whole fraction inner hbody =>
    cases h
    obtain ⟨s, rfl, hs⟩ := exists_of_takeSign hsign
    obtain ⟨b, rfl, hb⟩ := exists_of_takeBody hbody
    obtain ⟨e, he, hexponent⟩ := exists_of_takeExponent (Prod.eta (takeExponent inner)).symm
    refine ⟨s ++ (b ++ e), ?_, .mk hs hb hexponent⟩
    rw [List.append_assoc, List.append_assoc, ← he]

/-- What is left is the end of the text. -/
theorem suffix_scan (h : scan cs = some (n, rest)) : rest <:+ cs := by
  obtain ⟨front, hfront, -⟩ := exists_of_scan_some h
  exact ⟨front, hfront.symm⟩

/-- A written numeral is scanned whole. -/
theorem scan_of_writes (h : n.Writes cs) : scan cs = some (n, []) := by
  cases h with
  | mk hs hb he =>
    unfold scan
    rw [takeSign_of_writes hs (hb.not_sign _)]
    dsimp only
    rw [takeBody_of_writes hb he.head]
    dsimp only
    rw [takeExponent_of_writes he]

theorem Writes.unique (hn : n.Writes cs) (hm : m.Writes cs) : n = m :=
  (Prod.mk.inj (Option.some.inj ((scan_of_writes hn).symm.trans (scan_of_writes hm)))).1

/-- Where a numeral stands at the front of a text no less than it is taken. -/
theorem exists_scan_append (h : n.Writes front) (rest : List Char) :
    ∃ m r, scan (front ++ rest) = some (m, r) ∧ r <:+ rest := by
  cases h with
  | @mk negative whole fraction exponent s b e hs hb he =>
    have hassoc : s ++ (b ++ e) ++ rest = s ++ (b ++ (e ++ rest)) := by simp
    have hsign := takeSign_of_writes hs (hb.not_sign (e ++ rest))
    unfold scan
    rw [hassoc, hsign]
    dsimp only
    cases he with
    | absent =>
      obtain ⟨w, f, r, hbody, hr⟩ := exists_takeBody_append hb rest
      rw [List.nil_append, hbody]
      exact ⟨_, _, rfl, (suffix_takeExponent r).trans hr⟩
    | present hmark hs' hd hne =>
      -- the mark ends the digits before it, so the exponent is the one that is written
      have hexponent := WritesExponent.present hmark hs' hd hne
      have hhead := hexponent.head
      rw [List.cons_append, takeBody_of_writes hb (by simpa using hhead)]
      exact ⟨_, _, rfl, suffix_takeExponent_append hexponent rest⟩

/-- What is scanned is the longest numeral at the front of the text. -/
theorem scan_eq_some_iff : scan (front ++ rest) = some (n, rest) ↔ Longest n front rest := by
  constructor
  · intro h
    obtain ⟨front', heq, hwrites⟩ := exists_of_scan_some h
    obtain rfl := List.append_cancel_right heq
    refine ⟨hwrites, fun m a b hab ha => ?_⟩
    obtain ⟨m', r, hscan, hr⟩ := exists_scan_append ha b
    rw [← hab, h] at hscan
    cases hscan
    have hlength := congrArg List.length hab
    have hle := hr.length_le
    simp only [List.length_append] at hlength
    omega
  · intro h
    obtain ⟨m, r, hscan, hr⟩ := exists_scan_append h.writes rest
    obtain ⟨front', heq, hwrites⟩ := exists_of_scan_some hscan
    have hlength := congrArg List.length heq
    have hle := h.longest m front' r heq hwrites
    simp only [List.length_append] at hlength
    obtain rfl : r = rest := hr.eq_of_length_le (by omega)
    obtain rfl := List.append_cancel_right heq
    rw [hscan, h.writes.unique hwrites]

/-- Before a character with which no numeral goes on every numeral is the longest. -/
theorem Writes.longest (h : n.Writes front) (hrest : ∀ c ∈ rest.head?, Ends c) :
    Longest n front rest := by
  rw [← scan_eq_some_iff]
  cases rest with
  | nil =>
    rw [List.append_nil]
    exact scan_of_writes h
  | cons c rest =>
    rw [scan_append_cons (hrest c rfl), scan_of_writes h]
    rfl

/-! ## The numbers that numerals write -/

/-- A whole numeral has no more digits than may be read. -/
def IsReadable (n : Numeral) : Prop :=
  n.isWhole = true → n.whole.length ≤ Number.digitLimit

instance (n : Numeral) : Decidable n.IsReadable :=
  inferInstanceAs (Decidable (_ → _))

/-- The number that a numeral writes, of however many digits. -/
def number (n : Numeral) : Number :=
  if n.isWhole then .int (signed n.negative n.whole) else .double n.toDouble

theorem value?_of_isReadable (h : n.IsReadable) : n.value? = some n.number := by
  unfold value? number
  by_cases hwhole : n.isWhole = true
  · rw [if_pos hwhole, if_pos hwhole, if_neg (Nat.not_lt.2 (h hwhole))]
    rfl
  · rw [if_neg hwhole, if_neg hwhole]

theorem value?_of_not_isReadable (h : ¬ n.IsReadable) : n.value? = none := by
  obtain ⟨hwhole, hlong⟩ := Decidable.not_imp_iff_and_not.1 h
  rw [value?, if_pos hwhole, if_pos (Nat.not_le.1 hlong)]

theorem value?_eq_some_iff {x : Number} : n.value? = some x ↔ n.IsReadable ∧ x = n.number := by
  by_cases h : n.IsReadable
  · simp [value?_of_isReadable h, h, eq_comm]
  · simp [value?_of_not_isReadable h, h]

theorem value?_eq_none_iff : n.value? = none ↔ ¬ n.IsReadable := by
  by_cases h : n.IsReadable
  · simp [value?_of_isReadable h, h]
  · simp [value?_of_not_isReadable h, h]

end FunctionCatalog.Numeral
