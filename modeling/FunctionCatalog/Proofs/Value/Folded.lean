import FunctionCatalog.Function.Basic
import FunctionCatalog.Proofs.Aggregate.Offers
import FunctionCatalog.Proofs.Value.Bare

/-
  FunctionCatalog: values up to the letter case of labels.
  `Value.folded` forgets of a function how its name is written and which object it is, and does the
  same with the functions that are bound to it. Values that are the same need not be equal in this
  form, since `1` is the same as `1.0`; they are if all that is bound and is no function comes from
  values that sameness tells apart (`Value.folded_of_same`).
-/

namespace FunctionCatalog

/-- A function with the lower case of its name and what is bound to it, or any other value as it
is. -/
inductive Folded where
  | plain (v : Value)
  | function (label : String) (operation : Operation) (bound : List Folded)

namespace Folded

mutual

/-- All that is no function has the property, at every depth. -/
def All (P : Value → Prop) : Folded → Prop
  | plain v => P v
  | function _ _ bound => AllOf P bound

def AllOf (P : Value → Prop) : List Folded → Prop
  | [] => True
  | x :: xs => All P x ∧ AllOf P xs

end

mutual

/-- The kinds of all that is no function, from left to right. -/
def kinds : Folded → List String
  | plain v => [v.kindText]
  | function _ _ bound => kindsOf bound

def kindsOf : List Folded → List String
  | [] => []
  | x :: xs => kinds x ++ kindsOf xs

end

end Folded

mutual

def Value.folded : Value → Folded
  | .item i => Item.folded i
  | v => .plain v.bare

def Value.foldedAll : List Value → List Folded
  | [] => []
  | v :: vs => Value.folded v :: Value.foldedAll vs

def Item.folded : Item → Folded
  | .function f => NamedFunction.folded f
  | i => .plain (.item i.bare)

def NamedFunction.folded : NamedFunction → Folded
  | ⟨n, o, vs, _⟩ => .function (CaseMode.insensitive.fold n.value) o (Value.foldedAll vs)

end

theorem NamedFunction.folded_eq (f : NamedFunction) :
    f.folded = .function (CaseMode.insensitive.fold f.name.value) f.operation
      (Value.foldedAll f.parameters) := by
  cases f
  rw [folded]

/-! ## Values that are alike but for their objects -/

mutual

theorem Value.folded_of_bare {v w : Value} (h : v.bare = w.bare) : v.folded = w.folded := by
  cases v with
  | item i =>
    cases w <;> simp only [Value.bare, reduceCtorEq, Value.item.injEq] at h
    exact Item.folded_of_bare h
  | _ =>
    cases w with
    | item j => simp only [Value.bare, reduceCtorEq] at h
    | _ => exact congrArg Folded.plain h
termination_by structural v

theorem Value.foldedAll_of_bare {vs ws : List Value} (h : Value.bareAll vs = Value.bareAll ws) :
    Value.foldedAll vs = Value.foldedAll ws := by
  cases vs with
  | nil =>
    cases ws with
    | nil => rfl
    | cons w ws => cases h
  | cons v vs =>
    cases ws with
    | nil => cases h
    | cons w ws =>
      simp only [Value.bareAll, List.cons.injEq] at h
      rw [Value.foldedAll, Value.foldedAll, Value.folded_of_bare h.1, Value.foldedAll_of_bare h.2]
termination_by structural vs

theorem Item.folded_of_bare {i j : Item} (h : i.bare = j.bare) : i.folded = j.folded := by
  cases i with
  | function f =>
    cases j <;> simp only [Item.bare, reduceCtorEq, Item.function.injEq] at h
    exact NamedFunction.folded_of_bare h
  | _ =>
    cases j with
    | function g => simp only [Item.bare, reduceCtorEq] at h
    | _ => exact congrArg (fun i => Folded.plain (.item i)) h
termination_by structural i

theorem NamedFunction.folded_of_bare {f g : NamedFunction} (h : f.bare = g.bare) :
    f.folded = g.folded := by
  obtain ⟨m, o, vs, k⟩ := f
  obtain ⟨n, p, ws, l⟩ := g
  simp only [NamedFunction.bare, NamedFunction.mk.injEq] at h
  obtain ⟨hname, rfl, hvalues, -⟩ := h
  have hvalue : m.bare.value = n.bare.value := congrArg Name.value hname
  rw [NamedFunction.folded, NamedFunction.folded, Value.foldedAll_of_bare hvalues]
  exact congrArg (fun s => Folded.function (CaseMode.insensitive.fold s) o _) hvalue
termination_by structural f

end

/-! ## Values that are the same -/

/-- Sameness tells the values with a property apart. -/
def Value.Apart (P : Value → Prop) : Prop :=
  ∀ v w : Value, P v.bare → P w.bare → v.same w = true → v.bare = w.bare

section Apart

variable {P : Value → Prop}

mutual

/-- Values that are the same are equal up to the letter case of labels where sameness tells all
apart that is no function. -/
theorem Value.folded_of_same (hP : Value.Apart P) {v w : Value} (hv : v.folded.All P)
    (hw : w.folded.All P) (h : v.same w = true) : v.folded = w.folded := by
  -- An item, and so a function, is the same as items only.
  cases v with
  | item i =>
    cases w with
    | item j => exact Item.folded_of_same hP hv hw (by simpa only [Value.same] using h)
    | _ => simp [Value.same, Value.number?, Value.text?] at h
  | _ =>
    cases w with
    | item j => simp [Value.same, Value.number?, Value.text?] at h
    | _ => exact congrArg Folded.plain (hP _ _ hv hw h)
termination_by structural v

theorem Value.foldedAll_of_same (hP : Value.Apart P) {vs ws : List Value}
    (hvs : Folded.AllOf P (Value.foldedAll vs)) (hws : Folded.AllOf P (Value.foldedAll ws))
    (h : Value.allSame vs ws = true) : Value.foldedAll vs = Value.foldedAll ws := by
  cases vs with
  | nil =>
    cases ws with
    | nil => rfl
    | cons w ws => simp only [Value.allSame, Bool.false_eq_true] at h
  | cons v vs =>
    cases ws with
    | nil => simp only [Value.allSame, Bool.false_eq_true] at h
    | cons w ws =>
      simp only [Value.allSame, Bool.and_eq_true] at h
      rw [Value.foldedAll, Value.foldedAll, Value.folded_of_same hP hvs.1 hws.1 h.1,
        Value.foldedAll_of_same hP hvs.2 hws.2 h.2]
termination_by structural vs

theorem Item.folded_of_same (hP : Value.Apart P) {i j : Item} (hi : i.folded.All P)
    (hj : j.folded.All P) (h : i.same j = true) : i.folded = j.folded := by
  cases i with
  | function f =>
    cases j with
    | function g => exact NamedFunction.folded_of_same hP hi hj (by simpa only [Item.same] using h)
    | _ => simp [Item.same] at h
  | _ =>
    cases j with
    | function g => simp [Item.same] at h
    | _ =>
      exact congrArg Folded.plain
        (hP (.item _) (.item _) hi hj (by simpa only [Value.same] using h))
termination_by structural i

theorem NamedFunction.folded_of_same (hP : Value.Apart P) {f g : NamedFunction}
    (hf : f.folded.All P) (hg : g.folded.All P) (h : f.same g = true) : f.folded = g.folded := by
  obtain ⟨m, o, vs, k⟩ := f
  obtain ⟨n, p, ws, l⟩ := g
  simp only [NamedFunction.same, Bool.and_eq_true, beq_iff_eq] at h
  obtain ⟨⟨hname, rfl⟩, hvalues⟩ := h
  have hjoin : ∀ mode : CaseMode, mode.join .insensitive = .insensitive := by
    intro mode
    cases mode <;> rfl
  rw [NamedFunction.folded, NamedFunction.folded, Value.foldedAll_of_same hP hf hg hvalues,
    Name.fold_eq_of_same (hjoin _) (hjoin _) hname]
termination_by structural f

end

end Apart

/-! ## Functions -/

namespace Value

/-- Values that are equal up to the letter case of labels. What is no function has the property. -/
def SameFolded (P : Value → Prop) (v w : Value) : Prop :=
  v.folded = w.folded ∧ v.folded.All P

def SameFoldedAll (P : Value → Prop) (vs ws : List Value) : Prop :=
  foldedAll vs = foldedAll ws ∧ Folded.AllOf P (foldedAll vs)

variable {P : Value → Prop} {v w : Value} {vs ws : List Value}

theorem SameFoldedAll.cons (h : SameFolded P v w) (hall : SameFoldedAll P vs ws) :
    SameFoldedAll P (v :: vs) (w :: ws) :=
  ⟨congrArg₂ List.cons h.1 hall.1, h.2, hall.2⟩

theorem SameFoldedAll.symm (h : SameFoldedAll P vs ws) : SameFoldedAll P ws vs :=
  ⟨h.1.symm, h.1 ▸ h.2⟩

/-- Functions of one operation to which values are bound that are equal up to the letter case of
labels. They may have different names. -/
def BindsFolded (v w : Value) : Prop :=
  ∃ f g : NamedFunction, v = .item (.function f) ∧ w = .item (.function g) ∧
    f.operation = g.operation ∧ foldedAll f.parameters = foldedAll g.parameters

/-- What is bound is of the same kinds. -/
theorem BindsFolded.kinds (h : BindsFolded v w) : v.folded.kinds = w.folded.kinds := by
  obtain ⟨f, g, rfl, rfl, -, hvalues⟩ := h
  show f.folded.kinds = g.folded.kinds
  rw [f.folded_eq, g.folded_eq, Folded.kinds, Folded.kinds, hvalues]

end Value

namespace NamedFunction

variable {P : Value → Prop}

theorem folded_settle (f : NamedFunction) (next : Nat) : (f.settle.run next).1.folded = f.folded :=
  folded_of_bare (f.bare_settle next)

theorem folded_withName (n : Name) (f : NamedFunction) :
    (f.withName n).folded = .function (CaseMode.insensitive.fold n.value) f.operation
      (Value.foldedAll f.parameters) := by
  rw [folded_eq, withName]
  split
  · next h =>
    simp only [Name.alike, Bool.and_eq_true, beq_iff_eq] at h
    rw [h.1]
  · rfl

/-- Functions that are equal up to the letter case of labels stay so under new names. -/
theorem sameFolded_withName {f g : NamedFunction} {m n : Name}
    (h : Value.SameFolded P (.item (.function f)) (.item (.function g)))
    (hname : CaseMode.insensitive.fold m.value = CaseMode.insensitive.fold n.value)
    (next next' : Nat) :
    Value.SameFolded P (.item (.function ((f.withName m).settle.run next).1))
      (.item (.function ((g.withName n).settle.run next').1)) := by
  have hfolded : ∀ (h : NamedFunction) (o : Name) (next : Nat),
      (Value.item (.function ((h.withName o).settle.run next).1)).folded =
        .function (CaseMode.insensitive.fold o.value) h.operation (Value.foldedAll h.parameters) :=
    fun h o next => (folded_settle _ next).trans (folded_withName o h)
  obtain ⟨heq, hall⟩ := h
  replace heq : f.folded = g.folded := heq
  replace hall : f.folded.All P := hall
  rw [f.folded_eq] at hall
  rw [f.folded_eq, g.folded_eq, Folded.function.injEq] at heq
  rw [Value.SameFolded, hfolded, hfolded, hname, heq.2.1, heq.2.2]
  exact ⟨rfl, heq.2.2 ▸ hall⟩

end NamedFunction

end FunctionCatalog
