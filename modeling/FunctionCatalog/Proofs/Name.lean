import FunctionCatalog.Error
import FunctionCatalog.Proofs.Outcome

/-
  FunctionCatalog: which texts are names, where a name ends, and which names are alike.
-/

namespace FunctionCatalog

theorem isNamePart_of_isNameStart {c : Char} (h : isNameStart c = true) : isNamePart c = true := by
  have : c.isAlpha = true := h
  simp [isNamePart, Char.isAlphanum, this]

theorem toNat_of_isNameStart {c : Char} (h : isNameStart c = true) :
    65 ≤ c.toNat ∧ c.toNat ≤ 122 := by
  have hletter : (decide (c.val ≥ 'A'.val ∧ c.val ≤ 'Z'.val) ||
      (c.val ≥ 'a'.val && c.val ≤ 'z'.val)) = true := h
  simp only [Bool.or_eq_true, Bool.and_eq_true, decide_eq_true_eq, UInt32.le_iff_toNat_le,
    ge_iff_le] at hletter
  change (65 ≤ c.toNat ∧ c.toNat ≤ 90) ∨ (97 ≤ c.toNat ∧ c.toNat ≤ 122) at hletter
  omega

theorem toNat_of_isNamePart {c : Char} (h : isNamePart c = true) :
    45 ≤ c.toNat ∧ c.toNat ≤ 122 := by
  simp only [isNamePart, Char.isAlphanum, Bool.or_eq_true, beq_iff_eq] at h
  rcases h with (((h | h) | rfl) | rfl) | rfl
  · have hletter := toNat_of_isNameStart h
    omega
  · simp only [Char.isDigit, Bool.and_eq_true, decide_eq_true_eq, UInt32.le_iff_toNat_le,
      ge_iff_le] at h
    change 48 ≤ c.toNat ∧ c.toNat ≤ 57 at h
    omega
  · decide
  · decide
  · decide

/-- No white space is part of a name. -/
theorem not_isBlank_of_isNamePart {c : Char} (h : isNamePart c = true) :
    Text.isBlank c = false := by
  obtain ⟨hlow, hhigh⟩ := toNat_of_isNamePart h
  cases hb : Text.isBlank c with
  | false => rfl
  | true =>
    simp only [Text.isBlank, Bool.or_eq_true, Bool.and_eq_true, decide_eq_true_eq,
      beq_iff_eq] at hb
    omega

theorem not_isNamePart_of_isBlank {c : Char} (h : Text.isBlank c = true) :
    isNamePart c = false := by
  cases hc : isNamePart c with
  | false => rfl
  | true => rw [not_isBlank_of_isNamePart hc] at h; cases h

section Names

variable {n rest : List Char}

theorem isNamePart_of_isName (h : isName n = true) : ∀ c ∈ n, isNamePart c = true := by
  cases n with
  | nil => cases h
  | cons c n =>
    obtain ⟨hc, hn⟩ := Bool.and_eq_true_iff.1 h
    intro d hd
    rcases List.mem_cons.1 hd with rfl | hd
    · exact isNamePart_of_isNameStart hc
    · exact List.all_eq_true.1 hn d hd

theorem ne_nil_of_isName (h : isName n = true) : n ≠ [] := by
  rintro rfl
  cases h

/-- The first character of a name is no white space. -/
theorem not_isBlank_head_of_isName (h : isName n = true) (rest : List Char) :
    ∀ c ∈ (n ++ rest).head?, Text.isBlank c = false := by
  cases n with
  | nil => cases h
  | cons c n =>
    intro d hd
    cases hd
    exact not_isBlank_of_isNamePart (isNamePart_of_isName h c List.mem_cons_self)

/-- A name is taken whole where no character that could go on with it follows. -/
theorem takeName_of_isName (hn : isName n = true)
    (hrest : ∀ c ∈ rest.head?, isNamePart c = false) : takeName (n ++ rest) = (n, rest) := by
  cases n with
  | nil => cases hn
  | cons c n =>
    obtain ⟨hc, hn⟩ := Bool.and_eq_true_iff.1 hn
    have hall : ∀ d ∈ n, isNamePart d = true := List.all_eq_true.1 hn
    rw [List.cons_append, takeName, if_pos hc, List.takeWhile_append_of_pos hall,
      List.dropWhile_append_of_pos hall]
    cases rest with
    | nil => simp
    | cons d rest =>
      rw [List.takeWhile_cons_of_neg (by simp [hrest d rfl]),
        List.dropWhile_cons_of_neg (by simp [hrest d rfl]), List.append_nil]

/-- What is taken for a name is one, and it is taken again from its own. -/
theorem isName_takeName {cs : List Char} (h : (takeName cs).1 ≠ []) :
    isName (takeName cs).1 = true := by
  cases cs with
  | nil => exact absurd rfl h
  | cons c cs =>
    rw [takeName] at h ⊢
    split at h
    · next hc =>
      rw [if_pos hc]
      exact Bool.and_eq_true_iff.2 ⟨hc, List.all_takeWhile⟩
    · exact absurd rfl h

/-- No name is taken exactly where none starts. -/
theorem takeName_eq_nil_iff {cs : List Char} :
    (takeName cs).1 = [] ↔ ∀ c ∈ cs.head?, isNameStart c = false := by
  cases cs with
  | nil => exact iff_of_true rfl (by rintro c ⟨⟩)
  | cons c cs =>
    rw [takeName]
    cases hc : isNameStart c with
    | false => exact iff_of_true rfl (by rintro d ⟨⟩; exact hc)
    | true => exact iff_of_false (List.cons_ne_nil _ _) fun h => absurd (h c rfl) (by simp [hc])

/-- Behind a name that was taken stands no character that goes on with it. -/
theorem not_isNamePart_of_takeName {cs : List Char} (h : (takeName cs).1 ≠ []) :
    ∀ c ∈ (takeName cs).2.head?, isNamePart c = false := by
  cases cs with
  | nil => exact absurd rfl h
  | cons c cs =>
    rw [takeName] at h ⊢
    split at h
    · next hc =>
      rw [if_pos hc]
      intro d hd
      have hhead := List.head?_dropWhile_not isNamePart cs
      rwa [show (cs.dropWhile isNamePart).head? = some d from hd] at hhead
    · exact absurd rfl h

end Names

namespace Text

variable {a b : List Char}

/-- Only the white space in front is trimmed. -/
theorem trimLeft_append (ha : allBlank a = true) (hb : ∀ c ∈ b.head?, isBlank c = false) :
    trimLeft (a ++ b) = b := by
  have hall : ∀ c ∈ a, isBlank c = true := List.all_eq_true.1 ha
  rw [trimLeft, List.dropWhile_append_of_pos hall]
  cases b with
  | nil => rfl
  | cons c b => rw [List.dropWhile_cons_of_neg (by simp [hb c rfl])]

/-- White space around a list is trimmed. -/
theorem trim_list {c : List Char} (ha : allBlank a = true) (hc : allBlank c = true) :
    trim (a ++ '(' :: (b ++ ')' :: c)) = '(' :: (b ++ [')']) := by
  have hleft : trimLeft (a ++ '(' :: (b ++ ')' :: c)) = '(' :: (b ++ ')' :: c) :=
    trimLeft_append ha (by intro d hd; cases hd; decide)
  have hreverse : ('(' :: (b ++ ')' :: c)).reverse = c.reverse ++ ')' :: ('(' :: b).reverse := by
    simp
  have hright : trimLeft (c.reverse ++ ')' :: ('(' :: b).reverse) = ')' :: ('(' :: b).reverse :=
    trimLeft_append (by rw [allBlank, List.all_reverse]; exact hc)
      (by intro d hd; cases hd; decide)
  rw [trim, hleft, trimRight, hreverse]
  rw [trimLeft] at hright
  rw [hright]
  simp

/-- A text is white space and what is left when that is trimmed. -/
theorem exists_trimLeft (cs : List Char) :
    ∃ ws, allBlank ws = true ∧ cs = ws ++ trimLeft cs :=
  ⟨cs.takeWhile isBlank, List.all_takeWhile, List.takeWhile_append_dropWhile.symm⟩

theorem not_isBlank_head_trimLeft (cs : List Char) :
    ∀ c ∈ (trimLeft cs).head?, isBlank c = false := by
  intro c hc
  have hhead := List.head?_dropWhile_not isBlank cs
  rwa [show (cs.dropWhile isBlank).head? = some c from hc] at hhead

theorem trimLeft_eq_nil_iff {cs : List Char} : trimLeft cs = [] ↔ allBlank cs = true := by
  constructor
  · intro h
    obtain ⟨ws, hws, hcs⟩ := exists_trimLeft cs
    rwa [hcs, h, List.append_nil]
  · intro h
    have hleft := trimLeft_append (b := []) h (by simp)
    rwa [List.append_nil] at hleft

theorem trim_of_allBlank (ha : allBlank a = true) : trim a = [] := by
  rw [trim, trimLeft_eq_nil_iff.2 ha]
  rfl

end Text

/-! ## Names that can be made -/

@[simp] theorem Rejection.ofName_ok {α : Type} (a : α) :
    Rejection.ofName (.ok a) = .ok a :=
  rfl

namespace Name

variable {settings : Settings} {mode : CaseMode} {text : String} {n : Name}

/-- A name is not longer than is allowed. -/
def Fits (settings : Settings) (n : Name) : Prop :=
  (n.value.toList.length : Int) ≤ settings.nameLimit

instance (settings : Settings) (n : Name) : Decidable (n.Fits settings) :=
  inferInstanceAs (Decidable (_ ≤ _))

/-- The same name in another mode. -/
def inMode (mode : CaseMode) (n : Name) : Name :=
  { value := n.value, mode, isName_value := n.isName_value }

theorem make_of_fits (h : n.Fits settings) : make settings n.value mode = .ok (n.inMode mode) := by
  have hlimit : ¬ settings.nameLimit < (n.value.toList.length : Int) := Int.not_lt.2 h
  unfold make
  simp only [if_neg (ne_nil_of_isName n.isName_value), if_neg hlimit, dif_pos n.isName_value]
  rfl

theorem make_eq_ok (h : make settings text mode = .ok n) :
    n.value = text ∧ n.mode = mode ∧ n.Fits settings := by
  unfold make at h
  dsimp only at h
  split at h
  · cases h
  · split at h
    · cases h
    · next hlimit =>
      split at h
      · cases h
        exact ⟨rfl, rfl, Int.not_lt.1 hlimit⟩
      · split at h <;> cases h

theorem value_of_withMode {m : Name} (h : n.withMode settings mode = .ok m) : m.value = n.value := by
  unfold withMode at h
  split at h
  · cases h
    rfl
  · exact (make_eq_ok h).1

theorem isName_of_make {cs : List Char} (h : make settings (String.ofList cs) mode = .ok n) :
    isName cs = true := by
  have hname := n.isName_value
  rwa [(make_eq_ok h).1, String.toList_ofList] at hname

/-- Whether a name can be made does not depend on its mode. -/
theorem exists_make_inMode (h : make settings text mode = .ok n) (mode' : CaseMode) :
    make settings text mode' = .ok (n.inMode mode') := by
  obtain ⟨rfl, -, hfits⟩ := make_eq_ok h
  exact make_of_fits hfits

/-- Names that are equal in the mode of one of them are equal under their joint mode. -/
theorem same_of_same_inMode {a b : Name}
    (h : (a.inMode b.mode).same (b.inMode b.mode) = true) : a.same b = true := by
  obtain ⟨v, ma, hv, ha⟩ := a
  obtain ⟨w, mb, hw, hb⟩ := b
  cases mb with
  | sensitive =>
    obtain rfl : v = w := by simpa [same, inMode, CaseMode.join, CaseMode.fold] using h
    simp [same]
  | insensitive => cases ma <;> exact h

/-! ## Equal names -/

/-- The lower case of a name is that of its characters. -/
theorem lowerAfter_of_isName {cs : List Char} (h : isName cs = true) :
    Text.lowerAfter [] cs = cs.map Char.toLower := by
  have hascii : ∀ c ∈ cs, c.toNat < 0x80 := fun c hc => by
    have hpart := toNat_of_isNamePart (isNamePart_of_isName h c hc)
    omega
  -- what stands before a character matters for none of them
  have hall : ∀ before, Text.lowerAfter before cs = cs.map Char.toLower := by
    clear h
    induction cs with
    | nil => exact fun before => rfl
    | cons c cs ih =>
      intro before
      have hc : c.toNat < 0x80 := hascii c List.mem_cons_self
      rw [Text.lowerAfter, if_neg (by omega), Text.lowerChar, if_pos hc,
        ih (fun d hd => hascii d (List.mem_cons_of_mem c hd))]
      rfl
  exact hall []

theorem length_fold (mode : CaseMode) (n : Name) :
    (mode.fold n.value).toList.length = n.value.toList.length := by
  cases mode with
  | sensitive => rfl
  | insensitive =>
    rw [CaseMode.fold, Text.lower, String.toList_ofList, lowerAfter_of_isName n.isName_value,
      List.length_map]

theorem exists_letter_variant {c : Char} (h : isNameStart c = true) :
    ∃ d, isNameStart d = true ∧ d ≠ c ∧ d.toLower = c.toLower := by
  have hall : ∀ k : Fin 123, isNameStart (Char.ofNat k) = true →
      ∃ j : Fin 123, isNameStart (Char.ofNat j) = true ∧ Char.ofNat j ≠ Char.ofNat k ∧
        (Char.ofNat j).toLower = (Char.ofNat k).toLower := by
    decide +kernel
  have hlt : c.toNat < 123 := by
    have hletter := toNat_of_isNameStart h
    omega
  obtain ⟨j, hj⟩ := hall ⟨c.toNat, hlt⟩ (by rwa [Char.ofNat_toNat])
  rw [Char.ofNat_toNat] at hj
  exact ⟨_, hj⟩

/-- Every name has a case variant. -/
theorem exists_variant (n : Name) (mode : CaseMode) :
    ∃ m : Name, m.mode = mode ∧ m.value ≠ n.value ∧
      CaseMode.insensitive.fold m.value = CaseMode.insensitive.fold n.value := by
  have hname := n.isName_value
  cases hcs : n.value.toList with
  | nil => rw [hcs] at hname; cases hname
  | cons c cs =>
    rw [hcs, isName, Bool.and_eq_true] at hname
    obtain ⟨d, hd, hne, hlower⟩ := exists_letter_variant hname.1
    have hvariant : isName (String.ofList (d :: cs)).toList = true := by
      rw [String.toList_ofList, isName, hd, hname.2, Bool.and_self]
    refine ⟨{ value := String.ofList (d :: cs), mode, isName_value := hvariant }, rfl, ?_, ?_⟩
    · intro heq
      have hlists := congrArg String.toList heq
      rw [String.toList_ofList, hcs] at hlists
      exact hne (List.cons.inj hlists).1
    · rw [CaseMode.fold, CaseMode.fold, Text.lower, Text.lower,
        lowerAfter_of_isName hvariant, lowerAfter_of_isName n.isName_value,
        String.toList_ofList, hcs, List.map_cons, List.map_cons, hlower]

/-- Equal names are of one length. -/
theorem fits_of_same {a b : Name} (h : a.same b = true) (ha : a.Fits settings) :
    b.Fits settings := by
  have hfold : (a.mode.join b.mode).fold a.value = (a.mode.join b.mode).fold b.value := by
    simpa [same] using h
  have hlength := congrArg (fun s : String => s.toList.length) hfold
  simp only [length_fold] at hlength
  rwa [Fits, ← hlength]

theorem same_comm (a b : Name) : a.same b = b.same a := by
  simp only [same, CaseMode.join_comm b.mode a.mode]
  exact Bool.beq_comm

theorem same_of_value {a b : Name} (h : a.value = b.value) : a.same b = true := by
  simp [same, h]

/-! ## Names that are written alike -/

theorem alike_refl (n : Name) : n.alike n = true := by
  simp [alike]

theorem value_of_alike {a b : Name} (h : a.alike b = true) : a.value = b.value := by
  simp only [alike, Bool.and_eq_true, beq_iff_eq] at h
  exact h.1

theorem key_of_alike {a b : Name} (h : a.alike b = true) : a.key = b.key := by
  rw [key, key, mode_of_alike h, value_of_alike h]

/-- What stays under a name like its own, and else is made anew, has the name. -/
theorem alike_keep {α : Type} (name : α → Name) {n : Name} {old new : α} (h : name new = n) :
    n.alike (name (if n.alike (name old) then old else new)) = true := by
  by_cases hold : n.alike (name old) = true
  · rw [if_pos hold]
    exact hold
  · rw [if_neg hold, h]
    exact n.alike_refl

/-- A numbered name is like the one that was numbered. -/
theorem alike_settle (n : Name) (next : Nat) : (n.settle.run next).1.alike n = true :=
  n.alike_refl

end Name

end FunctionCatalog
