import FunctionCatalog.AliasSet
import FunctionCatalog.Proofs.NamedSet.Change
import FunctionCatalog.Proofs.Value.Order

/-
  FunctionCatalog: the order of aliases.
  Aliases are ordered by their names alone but are equal only if they have one target and one token
  too. Two aliases that share a name and nothing else are therefore both greater than the other, and
  they are the only ones: whether two aliases are in order (`Value.Ordered`) comes down to whether
  their names tell them apart (`Alias.ToldByName`), as those of the entries of a set do. Among the
  aliases of one mode equality and less can be chained.
-/

namespace FunctionCatalog

/-! ## What equality excludes -/

namespace Relation.OneOf

variable {less greater : Bool}

theorem less_of_equal (h : OneOf less true greater) : less = false := by
  cases h
  rfl

theorem greater_of_equal (h : OneOf less true greater) : greater = false := by
  cases h
  rfl

theorem not_less_and_greater {equal : Bool} (h : OneOf less equal greater) :
    ¬ (less = true ∧ greater = true) := by
  rintro ⟨rfl, rfl⟩
  cases h

end Relation.OneOf

namespace Value.Ordered

variable {v w : Value}

/-- Between values in order the relations are the same read from either side. -/
theorem ge_eq_le_swap (h : v.Ordered w) (h' : w.Ordered v) :
    relates .ge v w = relates .le w v :=
  calc relates .ge v w
    _ = (relates .gt v w).map (· || v.equal w) := h.ge
    _ = (relates .lt w v).map (· || w.equal v) := by rw [h.swap, h.symm]
    _ = relates .le w v := h'.le.symm

theorem not_both_greater (h : v.Ordered w) (h' : w.Ordered v) :
    ¬ (relates .gt v w = some true ∧ relates .gt w v = some true) := by
  rintro ⟨hgreater, hgreater'⟩
  rw [h'.swap] at hgreater'
  obtain ⟨less, greater, hless, hgt, honeOf⟩ := h.oneOf
  exact honeOf.not_less_and_greater
    ⟨Option.some.inj (hless.symm.trans hgreater'), Option.some.inj (hgt.symm.trans hgreater)⟩

end Value.Ordered

/-! ## Selectors and aliases of one mode -/

namespace Selector

variable {s t u : Selector}

theorem same_trans (hst : s.name.mode = t.name.mode) (htu : t.name.mode = u.name.mode)
    (h : s.same t = true) (h' : t.same u = true) : s.same u = true := by
  rw [same, Bool.and_eq_true, beq_iff_eq, Name.same_iff_key hst] at h
  rw [same, Bool.and_eq_true, beq_iff_eq, Name.same_iff_key htu] at h'
  rw [same, Bool.and_eq_true, beq_iff_eq, Name.same_iff_key (hst.trans htu)]
  exact ⟨h.1.trans h'.1, h.2.trans h'.2⟩

end Selector

namespace Alias

variable {a b c : Alias} {mode : CaseMode}

/-- The alias and its target are named in a mode. -/
structure HasMode (mode : CaseMode) (a : Alias) : Prop where
  name : a.name.mode = mode
  target : ∀ s, a.target = some s → s.name.mode = mode

/-- The names tell two aliases apart: where they are equal so are the aliases. -/
def ToldByName (a b : Alias) : Prop :=
  a.name.same b.name = true → a.same b = true

instance (a b : Alias) : Decidable (a.ToldByName b) :=
  inferInstanceAs (Decidable (_ → _))

theorem name_of_same (h : a.same b = true) : a.name.same b.name = true := by
  rw [same, Bool.and_eq_true, Bool.and_eq_true] at h
  exact h.1.1

theorem toldByName_comm : a.ToldByName b ↔ b.ToldByName a := by
  rw [ToldByName, ToldByName, a.name.same_comm b.name, a.same_comm b]

theorem same_eq_of_told (h : a.ToldByName b) : a.same b = a.name.same b.name :=
  Bool.eq_iff_iff.2 ⟨name_of_same, h⟩

/-- Of two aliases with one name none is less, whatever else tells them apart. -/
theorem before_of_same_name (h : a.name.same b.name = true) :
    a.before b = false ∧ b.before a = false := by
  have horder := a.name.oneOf b.name
  rw [h] at horder
  exact ⟨horder.less_of_equal, horder.greater_of_equal⟩

theorem sameTarget_trans {s t u : Option Selector}
    (hs : ∀ r, s = some r → r.name.mode = mode) (ht : ∀ r, t = some r → r.name.mode = mode)
    (hu : ∀ r, u = some r → r.name.mode = mode)
    (h : sameTarget s t = true) (h' : sameTarget t u = true) : sameTarget s u = true := by
  cases s with
  | none =>
    cases t with
    | none => exact h'
    | some t => cases h
  | some s =>
    cases t with
    | none => cases h
    | some t =>
      cases u with
      | none => cases h'
      | some u =>
        have hst : s.name.mode = t.name.mode := (hs s rfl).trans (ht t rfl).symm
        have htu : t.name.mode = u.name.mode := (ht t rfl).trans (hu u rfl).symm
        exact Selector.same_trans hst htu h h'

theorem same_trans (ha : a.HasMode mode) (hb : b.HasMode mode) (hc : c.HasMode mode)
    (h : a.same b = true) (h' : b.same c = true) : a.same c = true := by
  have hab : a.name.mode = b.name.mode := ha.name.trans hb.name.symm
  have hbc : b.name.mode = c.name.mode := hb.name.trans hc.name.symm
  rw [same, Bool.and_eq_true, Bool.and_eq_true, beq_iff_eq, Name.same_iff_key hab] at h
  rw [same, Bool.and_eq_true, Bool.and_eq_true, beq_iff_eq, Name.same_iff_key hbc] at h'
  rw [same, Bool.and_eq_true, Bool.and_eq_true, beq_iff_eq, Name.same_iff_key (hab.trans hbc)]
  obtain ⟨⟨hname, htarget⟩, htoken⟩ := h
  obtain ⟨⟨hname', htarget'⟩, htoken'⟩ := h'
  exact ⟨⟨hname.trans hname', sameTarget_trans ha.target hb.target hc.target htarget htarget'⟩,
    htoken.trans htoken'⟩

theorem before_trans (ha : a.HasMode mode) (hb : b.HasMode mode) (hc : c.HasMode mode)
    (h : a.before b = true) (h' : b.before c = true) : a.before c = true := by
  rw [before, Name.before_iff_key (ha.name.trans hb.name.symm)] at h
  rw [before, Name.before_iff_key (hb.name.trans hc.name.symm)] at h'
  rw [before, Name.before_iff_key (ha.name.trans hc.name.symm)]
  exact String.lt_trans h h'

end Alias

/-- The alias of a name for another name. -/
def Alias.spelled (name target : String) (hname : isName name.toList = true)
    (htarget : isName target.toList = true)
    (hfits : fits (.spelled name .sensitive hname)
      (some (.make (.spelled target .sensitive htarget) "")) none = true) : Alias where
  name := .spelled name .sensitive hname
  target := some (.make (.spelled target .sensitive htarget) "")
  token := none
  fits_target := hfits

/-- A set has one alias for each name. -/
theorem AliasSet.toldByName {s : AliasSet} {a b : Alias} (ha : a ∈ s.entries)
    (hb : b ∈ s.entries) : a.ToldByName b := by
  intro hname
  have hmode : a.name.mode = b.name.mode :=
    (s.mode_of_mem a ha).trans (s.mode_of_mem b hb).symm
  have hkey : a.name.key = b.name.key := (Name.same_iff_key hmode).1 hname
  have heq : a = b := s.ascending.eq_of_key ha hb hkey
  exact heq ▸ a.same_refl

/-! ## Aliases as values -/

namespace Value

variable {a b : Alias}

/-- An alias that is named in the mode, and its target with it. -/
def IsAliasOf (mode : CaseMode) (v : Value) : Prop :=
  ∃ a : Alias, v = .item (.alias a) ∧ a.HasMode mode

@[simp] theorem equal_alias (a b : Alias) :
    (Value.item (.alias a)).equal (.item (.alias b)) = a.same b := by
  simp [Value.equal, Value.same, Item.same]

theorem relates_alias (r : Relation) (a b : Alias) :
    relates r (.item (.alias a)) (.item (.alias b)) = some (r.ofLess (a.before b) (a.same b)) :=
  rfl

/-- Seen from one side the relations of two aliases always fit together. -/
theorem oneOf_aliases (a b : Alias) :
    ∃ less greater, relates .lt (.item (.alias a)) (.item (.alias b)) = some less ∧
      relates .gt (.item (.alias a)) (.item (.alias b)) = some greater ∧
      Relation.OneOf less ((Value.item (.alias a)).equal (.item (.alias b))) greater ∧
      relates .le (.item (.alias a)) (.item (.alias b)) =
        some (less || (Value.item (.alias a)).equal (.item (.alias b))) := by
  rw [equal_alias]
  refine ⟨a.before b, !a.before b && !a.same b, rfl, rfl, ?_, rfl⟩
  -- equal aliases have equal names, so none of them is less
  cases hsame : a.same b with
  | true =>
    rw [(Alias.before_of_same_name (Alias.name_of_same hsame)).1]
    exact .equal
  | false =>
    cases a.before b with
    | true => exact .less
    | false => exact .greater

theorem ordered_aliases (h : a.ToldByName b) :
    (Value.item (.alias a)).Ordered (.item (.alias b)) := by
  have horder := a.name.oneOf b.name
  rw [← Alias.same_eq_of_told h] at horder
  exact .of_oneOf horder (relates_alias · a b) (relates_alias .lt b a) (equal_alias a b)
    ((equal_alias b a).trans (b.same_comm a))

/-- Aliases with one name and different targets or tokens are each greater than the other. -/
theorem both_greater (h : ¬ a.ToldByName b) :
    relates .gt (.item (.alias a)) (.item (.alias b)) = some true ∧
      relates .gt (.item (.alias b)) (.item (.alias a)) = some true ∧
      relates .ge (.item (.alias a)) (.item (.alias b)) = some true ∧
      relates .le (.item (.alias b)) (.item (.alias a)) = some false ∧
      relates .lt (.item (.alias b)) (.item (.alias a)) = some false := by
  obtain ⟨hname, hsame⟩ := Decidable.not_imp_iff_and_not.1 h
  obtain ⟨hless, hgreater⟩ := Alias.before_of_same_name hname
  have hsame : a.same b = false := Bool.eq_false_iff.2 hsame
  have hsame' : b.same a = false := (b.same_comm a).trans hsame
  simp only [relates_alias, hless, hgreater, hsame, hsame', Relation.ofLess, Bool.not_false,
    Bool.and_self, Bool.or_self, and_self]

theorem ordered_aliases_iff :
    (Value.item (.alias a)).Ordered (.item (.alias b)) ↔ a.ToldByName b := by
  refine ⟨fun h => Decidable.byContradiction fun htold => ?_, ordered_aliases⟩
  obtain ⟨hgreater, -, -, -, hless⟩ := both_greater htold
  rw [h.swap, hless] at hgreater
  cases hgreater

theorem orderedAmong_aliases (mode : CaseMode) : OrderedAmong (IsAliasOf mode) where
  equal_trans := by
    rintro _ _ _ ⟨a, rfl, ha⟩ ⟨b, rfl, hb⟩ ⟨c, rfl, hc⟩ hab hbc
    rw [equal_alias] at hab hbc ⊢
    exact Alias.same_trans ha hb hc hab hbc
  lt_trans := by
    rintro _ _ _ ⟨a, rfl, ha⟩ ⟨b, rfl, hb⟩ ⟨c, rfl, hc⟩ hab hbc
    exact congrArg some
      (Alias.before_trans ha hb hc (Option.some.inj hab) (Option.some.inj hbc))

/-- Of two aliases exactly one of less, equal and greater holds as seen from the one, and what is
less or equal is less or equal. The relations are the same seen from the other one, and the two are
not both greater, exactly if their names tell them apart, as those of the entries of a set do.
Among the aliases of a mode equality and order are transitive. -/
theorem aliases_ordered_iff (a b : Alias) (mode : CaseMode) (s : AliasSet) :
    (∃ less greater, relates .lt (.item (.alias a)) (.item (.alias b)) = some less ∧
      relates .gt (.item (.alias a)) (.item (.alias b)) = some greater ∧
      Relation.OneOf less ((Value.item (.alias a)).equal (.item (.alias b))) greater ∧
      relates .le (.item (.alias a)) (.item (.alias b)) =
        some (less || (Value.item (.alias a)).equal (.item (.alias b)))) ∧
    (relates .ge (.item (.alias a)) (.item (.alias b)) =
      relates .le (.item (.alias b)) (.item (.alias a)) ↔ a.ToldByName b) ∧
    (¬ (relates .gt (.item (.alias a)) (.item (.alias b)) = some true ∧
      relates .gt (.item (.alias b)) (.item (.alias a)) = some true) ↔ a.ToldByName b) ∧
    ((Value.item (.alias a)).Ordered (.item (.alias b)) ↔ a.ToldByName b) ∧
    OrderedAmong (IsAliasOf mode) ∧
    ∀ x ∈ s.entries, ∀ y ∈ s.entries, (Value.item (.alias x)).Ordered (.item (.alias y)) := by
  refine ⟨oneOf_aliases a b, ?_, ?_, ordered_aliases_iff, orderedAmong_aliases mode,
    fun x hx y hy => ordered_aliases (AliasSet.toldByName hx hy)⟩
  · constructor
    · refine fun heq => Decidable.byContradiction fun htold => ?_
      obtain ⟨-, -, hge, hle, -⟩ := both_greater htold
      rw [hge, hle] at heq
      cases heq
    · intro htold
      exact (ordered_aliases htold).ge_eq_le_swap (ordered_aliases (Alias.toldByName_comm.1 htold))
  · constructor
    · refine fun hboth => Decidable.byContradiction fun htold => ?_
      obtain ⟨hgreater, hgreater', -⟩ := both_greater htold
      exact hboth ⟨hgreater, hgreater'⟩
    · intro htold
      exact (ordered_aliases htold).not_both_greater
        (ordered_aliases (Alias.toldByName_comm.1 htold))

/-- The aliases `a f` and `b f` are in order, since their names tell them apart. -/
theorem aliases_ordered_iff_letters :
    (Alias.spelled "a" "f" (by decide) (by decide) (by decide +kernel)).ToldByName
        (.spelled "b" "f" (by decide) (by decide) (by decide +kernel)) ∧
      (Value.item (.alias (.spelled "a" "f" (by decide) (by decide) (by decide +kernel)))).Ordered
        (.item (.alias (.spelled "b" "f" (by decide) (by decide) (by decide +kernel)))) := by
  have htold : (Alias.spelled "a" "f" (by decide) (by decide) (by decide +kernel)).ToldByName
      (.spelled "b" "f" (by decide) (by decide) (by decide +kernel)) := by
    decide +kernel
  obtain ⟨-, -, -, hordered, -⟩ := aliases_ordered_iff
    (.spelled "a" "f" (by decide) (by decide) (by decide +kernel))
    (.spelled "b" "f" (by decide) (by decide) (by decide +kernel)) .sensitive (.empty .sensitive)
  exact ⟨htold, hordered.2 htold⟩

/-- The aliases `a f` and `a g` are each greater than the other, though neither is less: one is
greater than or equal to the other, which is not less than or equal to it. -/
theorem one_name_two_targets :
    relates .gt (.item (.alias (.spelled "a" "f" (by decide) (by decide) (by decide +kernel))))
        (.item (.alias (.spelled "a" "g" (by decide) (by decide) (by decide +kernel)))) =
        some true ∧
      relates .gt (.item (.alias (.spelled "a" "g" (by decide) (by decide) (by decide +kernel))))
        (.item (.alias (.spelled "a" "f" (by decide) (by decide) (by decide +kernel)))) =
        some true ∧
      relates .ge (.item (.alias (.spelled "a" "f" (by decide) (by decide) (by decide +kernel))))
        (.item (.alias (.spelled "a" "g" (by decide) (by decide) (by decide +kernel)))) =
        some true ∧
      relates .le (.item (.alias (.spelled "a" "g" (by decide) (by decide) (by decide +kernel))))
        (.item (.alias (.spelled "a" "f" (by decide) (by decide) (by decide +kernel)))) =
        some false := by
  decide +kernel

end Value

end FunctionCatalog
