import FunctionCatalog.Proofs.Value.Same
import FunctionCatalog.Value.Order

/-
  FunctionCatalog: the order of names and infos.
  Of two names one is less than the other, or they are equal, and only one of these holds, whatever
  their modes are; so it is with two infos, which go by their names and then by their tokens. All
  four relations and equality tell the same (`Value.Ordered`). Chains need a single mode, where
  names compare by keys of their own (`Value.OrderedAmong`).
-/

namespace FunctionCatalog

/-! ## One of three -/

/-- Exactly one of less, equal and greater holds. -/
inductive Relation.OneOf : Bool → Bool → Bool → Prop
  | less : OneOf true false false
  | equal : OneOf false true false
  | greater : OneOf false false true

theorem Relation.oneOf_texts (s t : String) :
    OneOf (decide (s < t)) (s == t) (decide (t < s)) := by
  rcases Std.lt_trichotomy s t with hlt | rfl | hgt
  · have hne : s ≠ t := fun heq => String.lt_irrefl t (heq ▸ hlt)
    have hngt : ¬ t < s := fun hgt => String.lt_irrefl s (String.lt_trans hlt hgt)
    rw [decide_eq_true hlt, beq_eq_false_iff_ne.2 hne, decide_eq_false hngt]
    exact .less
  · rw [decide_eq_false (String.lt_irrefl s), beq_self_eq_true]
    exact .equal
  · have hne : s ≠ t := fun heq => String.lt_irrefl s (heq ▸ hgt)
    have hnlt : ¬ s < t := fun hlt => String.lt_irrefl s (String.lt_trans hlt hgt)
    rw [decide_eq_true hgt, beq_eq_false_iff_ne.2 hne, decide_eq_false hnlt]
    exact .greater

namespace Value

/-- Two values that can be compared: exactly one of less, equal and greater holds, the other two
relations say which of them do, and seen from the other side all is the other way around. -/
structure Ordered (v w : Value) : Prop where
  oneOf : ∃ less greater, relates .lt v w = some less ∧ relates .gt v w = some greater ∧
    Relation.OneOf less (v.equal w) greater
  le : relates .le v w = (relates .lt v w).map (· || v.equal w)
  ge : relates .ge v w = (relates .gt v w).map (· || v.equal w)
  swap : relates .gt v w = relates .lt w v
  symm : v.equal w = w.equal v

theorem Ordered.of_oneOf {v w : Value} {less equal greater : Bool}
    (h : Relation.OneOf less equal greater)
    (hrelates : ∀ r, relates r v w = some (r.ofLess less equal))
    (hswap : relates .lt w v = some greater) (hequal : v.equal w = equal)
    (hsymm : w.equal v = equal) : v.Ordered w := by
  have hgt : relates .gt v w = some greater := by
    rw [hrelates]
    cases h <;> rfl
  refine ⟨⟨less, greater, hrelates .lt, hgt, hequal ▸ h⟩, ?_, ?_, hgt.trans hswap.symm,
    hequal.trans hsymm.symm⟩
  · rw [hrelates, hrelates, hequal]
    rfl
  · rw [hrelates, hgt, hequal]
    cases h <;> rfl

/-- Values among which equality and order can be chained. -/
structure OrderedAmong (p : Value → Prop) : Prop where
  equal_trans : ∀ u v w, p u → p v → p w →
    u.equal v = true → v.equal w = true → u.equal w = true
  lt_trans : ∀ u v w, p u → p v → p w →
    relates .lt u v = some true → relates .lt v w = some true → relates .lt u w = some true

end Value

/-! ## Names -/

namespace Name

variable {a b : Name}

theorem oneOf (a b : Name) : Relation.OneOf (a.before b) (a.same b) (b.before a) := by
  rw [before, same, before, b.mode.join_comm]
  exact Relation.oneOf_texts _ _

theorem same_iff_key (hmode : a.mode = b.mode) : a.same b = true ↔ a.key = b.key := by
  rw [same, key, key, hmode, CaseMode.join_self, beq_iff_eq]

theorem before_iff_key (hmode : a.mode = b.mode) : a.before b = true ↔ a.key < b.key := by
  rw [before, key, key, hmode, CaseMode.join_self, decide_eq_true_eq]

/-- The name that a text is. -/
def spelled (text : String) (mode : CaseMode) (h : isName text.toList = true) : Name where
  value := text
  mode := mode
  isName_value := h

/-- Names that are equal under any mode are equal where case is ignored. -/
theorem lower_of_same (h : a.same b = true) : Text.lower a.value = Text.lower b.value := by
  rw [same, beq_iff_eq] at h
  cases hmode : a.mode.join b.mode with
  | sensitive =>
    rw [hmode] at h
    exact congrArg Text.lower h
  | insensitive =>
    rw [hmode] at h
    exact h

end Name

/-! ## Infos -/

namespace Info

variable {i j k : Info}

theorem oneOf (i j : Info) : Relation.OneOf (i.before j) (i.same j) (j.before i) := by
  have hnames := i.name.oneOf j.name
  rw [before, same, before, j.name.same_comm i.name]
  -- where the names differ they decide, else the tokens do
  cases hsame : i.name.same j.name with
  | true => simpa using Relation.oneOf_texts i.token j.token
  | false => simpa [hsame] using hnames

theorem same_refl (i : Info) : i.same i = true := by
  rw [same, i.name.same_refl, beq_self_eq_true, Bool.and_self]

theorem token_of_same (h : i.same j = true) : i.token = j.token :=
  beq_iff_eq.1 (Bool.and_eq_true_iff.1 h).2

/-- Names decide before tokens. -/
theorem before_iff : i.before j = true ↔
    i.name.before j.name = true ∨ i.name.same j.name = true ∧ i.token < j.token := by
  have hnames := i.name.oneOf j.name
  rw [before]
  generalize i.name.before j.name = less at hnames ⊢
  generalize i.name.same j.name = equal at hnames ⊢
  generalize j.name.before i.name = greater at hnames
  cases hnames <;> simp

theorem before_trans (hij : i.name.mode = j.name.mode) (hjk : j.name.mode = k.name.mode)
    (h : i.before j = true) (h' : j.before k = true) : i.before k = true := by
  rw [before_iff, Name.before_iff_key hij, Name.same_iff_key hij] at h
  rw [before_iff, Name.before_iff_key hjk, Name.same_iff_key hjk] at h'
  rw [before_iff, Name.before_iff_key (hij.trans hjk), Name.same_iff_key (hij.trans hjk)]
  rcases h with h | ⟨hkey, htoken⟩
  · rcases h' with h' | ⟨hkey', -⟩
    · exact .inl (String.lt_trans h h')
    · exact .inl (hkey' ▸ h)
  · rcases h' with h' | ⟨hkey', htoken'⟩
    · exact .inl (hkey ▸ h')
    · exact .inr ⟨hkey.trans hkey', String.lt_trans htoken htoken'⟩

theorem same_trans (hij : i.name.mode = j.name.mode) (hjk : j.name.mode = k.name.mode)
    (h : i.same j = true) (h' : j.same k = true) : i.same k = true := by
  rw [same, Bool.and_eq_true, beq_iff_eq, Name.same_iff_key hij] at h
  rw [same, Bool.and_eq_true, beq_iff_eq, Name.same_iff_key hjk] at h'
  rw [same, Bool.and_eq_true, beq_iff_eq, Name.same_iff_key (hij.trans hjk)]
  exact ⟨h.1.trans h'.1, h.2.trans h'.2⟩

end Info

/-! ## Names and infos as values -/

namespace Value

/-- A name of the mode. -/
def IsNameOf (mode : CaseMode) (v : Value) : Prop :=
  ∃ n : Name, v = .name n ∧ n.mode = mode

/-- An info whose name has the mode. -/
def IsInfoOf (mode : CaseMode) (v : Value) : Prop :=
  ∃ i : Info, v = .item (.info i) ∧ i.name.mode = mode

@[simp] theorem equal_name (a b : Name) : (Value.name a).equal (.name b) = a.same b := by
  simp [Value.equal, Value.same]

@[simp] theorem equal_info (i j : Info) :
    (Value.item (.info i)).equal (.item (.info j)) = i.same j := by
  simp [Value.equal, Value.same, Item.same]

theorem ordered_names (a b : Name) : (Value.name a).Ordered (.name b) :=
  .of_oneOf (a.oneOf b) (fun _ => rfl) rfl (equal_name a b)
    ((equal_name b a).trans (b.same_comm a))

theorem ordered_infos (i j : Info) : (Value.item (.info i)).Ordered (.item (.info j)) :=
  .of_oneOf (i.oneOf j) (fun _ => rfl) rfl (equal_info i j)
    ((equal_info j i).trans (j.same_comm i))

theorem orderedAmong_names (mode : CaseMode) : OrderedAmong (IsNameOf mode) where
  equal_trans := by
    rintro _ _ _ ⟨a, rfl, ha⟩ ⟨b, rfl, hb⟩ ⟨c, rfl, hc⟩ hab hbc
    rw [equal_name, Name.same_iff_key (ha.trans hb.symm)] at hab
    rw [equal_name, Name.same_iff_key (hb.trans hc.symm)] at hbc
    rw [equal_name, Name.same_iff_key (ha.trans hc.symm), hab, hbc]
  lt_trans := by
    rintro _ _ _ ⟨a, rfl, ha⟩ ⟨b, rfl, hb⟩ ⟨c, rfl, hc⟩ hab hbc
    have hab' := (Name.before_iff_key (ha.trans hb.symm)).1 (Option.some.inj hab)
    have hbc' := (Name.before_iff_key (hb.trans hc.symm)).1 (Option.some.inj hbc)
    exact congrArg some
      ((Name.before_iff_key (ha.trans hc.symm)).2 (String.lt_trans hab' hbc'))

theorem orderedAmong_infos (mode : CaseMode) : OrderedAmong (IsInfoOf mode) where
  equal_trans := by
    rintro _ _ _ ⟨i, rfl, hi⟩ ⟨j, rfl, hj⟩ ⟨k, rfl, hk⟩ hij hjk
    rw [equal_info] at hij hjk ⊢
    exact Info.same_trans (hi.trans hj.symm) (hj.trans hk.symm) hij hjk
  lt_trans := by
    rintro _ _ _ ⟨i, rfl, hi⟩ ⟨j, rfl, hj⟩ ⟨k, rfl, hk⟩ hij hjk
    exact congrArg some (Info.before_trans (hi.trans hj.symm) (hj.trans hk.symm)
      (Option.some.inj hij) (Option.some.inj hjk))

/-- Of two names of any modes, and of two infos, exactly one of less, equal and greater holds, all
relations agree with that and equality is symmetric. Equal names are equal in lower case. Among the
names of a mode, and among the infos with names of a mode, equality and order are transitive. An
info is less than another one if its name is, or if their names are equal and its token is less. -/
theorem names_and_infos_ordered :
    (∀ a b : Name, (Value.name a).Ordered (.name b) ∧
      ((Value.name a).equal (.name b) = true → Text.lower a.value = Text.lower b.value)) ∧
    (∀ mode, OrderedAmong (IsNameOf mode)) ∧
    (∀ i j : Info, (Value.item (.info i)).Ordered (.item (.info j)) ∧
      (relates .lt (.item (.info i)) (.item (.info j)) = some true ↔
        relates .lt (.name i.name) (.name j.name) = some true ∨
          (Value.name i.name).equal (.name j.name) = true ∧ i.token < j.token)) ∧
    ∀ mode, OrderedAmong (IsInfoOf mode) := by
  refine ⟨fun a b => ⟨ordered_names a b, fun h => ?_⟩, orderedAmong_names,
    fun i j => ⟨ordered_infos i j, ?_⟩, orderedAmong_infos⟩
  · exact Name.lower_of_same ((equal_name a b).symm.trans h)
  · rw [equal_name]
    exact (Option.some_inj.trans Info.before_iff).trans (or_congr_left Option.some_inj.symm)

/-- `A` and `a` are in order, and are equal to each other where case is ignored. -/
theorem names_and_infos_ordered_letters :
    (Value.name (.spelled "A" .sensitive (by decide))).equal
        (.name (.spelled "a" .insensitive (by decide))) = true ∧
      Text.lower "A" = Text.lower "a" := by
  obtain ⟨hnames, -⟩ := names_and_infos_ordered
  have hequal : (Value.name (.spelled "A" .sensitive (by decide))).equal
      (.name (.spelled "a" .insensitive (by decide))) = true := by
    decide +kernel
  exact ⟨hequal, (hnames _ _).2 hequal⟩

/-- Across modes equality cannot be chained. -/
example :
    (Name.spelled "A" .sensitive (by decide)).same (.spelled "a" .insensitive (by decide)) = true ∧
      (Name.spelled "a" .insensitive (by decide)).same (.spelled "a" .sensitive (by decide)) =
        true ∧
      (Name.spelled "A" .sensitive (by decide)).same (.spelled "a" .sensitive (by decide)) =
        false := by
  decide +kernel

end Value

end FunctionCatalog
