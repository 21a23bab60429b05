import FunctionCatalog.Proofs.Name
import FunctionCatalog.Value.Equality
import FunctionCatalog.Value.Settle
import FunctionCatalog.Value.Text
import Mathlib.Logic.Basic

/-
  FunctionCatalog: values without their objects.
  `Value.bare` forgets which objects a value is made of and which NaN a NaN is, at every depth, and
  nothing else: bare values are equal when all their parts are of the same kinds and are written
  alike. Numbering leaves a bare value as it is (`Value.bare_settle`).
-/

namespace FunctionCatalog

/-! ## The bare form -/

/-- All NaN are one. -/
def Binary64.bare (x : Binary64) : Binary64 :=
  if x.isNaN then .nan 0 else x

def Name.bare (n : Name) : Name :=
  { n with handle := .loose }

def Info.bare (i : Info) : Info :=
  { i with name := i.name.bare, handle := .loose }

def Selector.bare (s : Selector) : Selector :=
  { s with name := s.name.bare, handle := .loose }

def Alias.bare (a : Alias) : Alias :=
  a.withHandles .loose .loose Selector.bare (fun s => ⟨rfl, s.name.alike_refl⟩)

mutual

def Value.bare : Value → Value
  | .double x => .double x.bare
  | .list vs => .list (Value.bareAll vs)
  | .tuple vs => .tuple (Value.bareAll vs)
  | .record ks vs => .record (Value.bareAll ks) (Value.bareAll vs)
  | .name n => .name n.bare
  | .item i => .item (Item.bare i)
  | .set kind mode es _ => .set kind mode (Item.bareAll es) .loose
  | v => v

def Value.bareAll : List Value → List Value
  | [] => []
  | v :: vs => Value.bare v :: Value.bareAll vs

def Item.bare : Item → Item
  | .info i => .info i.bare
  | .infoWith n t _ => .infoWith n.bare (Value.bare t) .loose
  | .selector s => .selector s.bare
  | .alias a => .alias a.bare
  | .aliasWith n s t _ => .aliasWith n.bare s.bare (Value.bare t) .loose
  | .function f => .function (NamedFunction.bare f)

def Item.bareAll : List Item → List Item
  | [] => []
  | i :: is => Item.bare i :: Item.bareAll is

def NamedFunction.bare : NamedFunction → NamedFunction
  | ⟨n, o, vs, _⟩ => ⟨n.bare, o, Value.bareAll vs, .loose⟩

end

theorem Value.bareAll_eq_map (vs : List Value) : Value.bareAll vs = vs.map Value.bare := by
  induction vs with
  | nil => rfl
  | cons v vs ih => rw [Value.bareAll, ih, List.map_cons]

/-! ## Numbering -/

namespace Binary64

theorem isNaN_nan (n : Nat) : (nan n).isNaN = true := by
  have hpos : n % (Nat.pow 2 52 - 1) + 1 ≠ 0 := Nat.succ_ne_zero _
  have hlt : n % (Nat.pow 2 52 - 1) + 1 < Nat.pow 2 52 := by
    have := Nat.mod_lt n (show 0 < Nat.pow 2 52 - 1 by decide)
    omega
  have hfraction : (nan n).fraction.val ≠ 0 := by
    rwa [nan, Fin.val_ofNat, Nat.mod_eq_of_lt hlt]
  exact Bool.and_eq_true_iff.2 ⟨rfl, bne_iff_ne.2 fun h => hfraction (congrArg Fin.val h)⟩

theorem bare_nan (n : Nat) : (nan n).bare = nan 0 := by
  rw [bare, if_pos (isNaN_nan n)]

theorem bare_settle (x : Binary64) (next : Nat) : (x.settle.run next).1.bare = x.bare := by
  unfold settle
  by_cases hx : x = nan 0
  · rw [if_pos hx, hx, bare_nan]
    exact bare_nan _
  · rw [if_neg hx]
    rfl

end Binary64

theorem Alias.bare_settle (a : Alias) (next : Nat) : (a.settle.run next).1.bare = a.bare := by
  obtain ⟨name, target, token, hfits, handle⟩ := a
  cases target <;> rfl

mutual

theorem Value.bare_settle (v : Value) (next : Nat) : (v.settle.run next).1.bare = v.bare := by
  cases v with
  | double x => exact congrArg Value.double (x.bare_settle next)
  | list vs => exact congrArg Value.list (Value.bareAll_settle vs next)
  | tuple vs => exact congrArg Value.tuple (Value.bareAll_settle vs next)
  | record ks vs =>
    exact congrArg₂ Value.record (Value.bareAll_settle ks next) (Value.bareAll_settle vs _)
  | name n => rfl
  | item i => exact congrArg Value.item (Item.bare_settle i next)
  | set kind mode es h =>
    exact congrArg (fun es => Value.set kind mode es .loose) (Item.bareAll_settle es next)
  | _ => rfl

theorem Value.bareAll_settle (vs : List Value) (next : Nat) :
    Value.bareAll ((Value.settleAll vs).run next).1 = Value.bareAll vs := by
  cases vs with
  | nil => rfl
  | cons v vs =>
    exact congrArg₂ List.cons (Value.bare_settle v next) (Value.bareAll_settle vs _)

theorem Item.bare_settle (i : Item) (next : Nat) : (i.settle.run next).1.bare = i.bare := by
  cases i with
  | info i => rfl
  | infoWith n t h =>
    exact congrArg (fun t => Item.infoWith n.bare t .loose) (Value.bare_settle t _)
  | selector s => rfl
  | «alias» a => exact congrArg Item.alias (a.bare_settle next)
  | aliasWith n s t h =>
    exact congrArg (fun t => Item.aliasWith n.bare s.bare t .loose) (Value.bare_settle t _)
  | function f => exact congrArg Item.function (NamedFunction.bare_settle f next)

theorem Item.bareAll_settle (is : List Item) (next : Nat) :
    Item.bareAll ((Item.settleAll is).run next).1 = Item.bareAll is := by
  cases is with
  | nil => rfl
  | cons i is => exact congrArg₂ List.cons (Item.bare_settle i next) (Item.bareAll_settle is _)

theorem NamedFunction.bare_settle (f : NamedFunction) (next : Nat) :
    (f.settle.run next).1.bare = f.bare := by
  obtain ⟨n, o, vs, h⟩ := f
  exact congrArg (fun vs => NamedFunction.mk n.bare o vs .loose) (Value.bareAll_settle vs _)

end

/-! ## Kinds -/

theorem Value.kindText_bare (v : Value) : v.bare.kindText = v.kindText := by
  cases v with
  | item i => cases i <;> rfl
  | _ => rfl

theorem Value.kindText_of_bare {v w : Value} (h : v.bare = w.bare) : v.kindText = w.kindText := by
  rw [← v.kindText_bare, h, w.kindText_bare]

/-- Values that are alike but for their objects are of the same kinds. -/
theorem Value.kindText_of_bareAll {vs ws : List Value} (h : Value.bareAll vs = Value.bareAll ws) :
    vs.map Value.kindText = ws.map Value.kindText := by
  have hkind : ∀ us : List Value,
      us.map Value.kindText = (Value.bareAll us).map Value.kindText := by
    intro us
    rw [Value.bareAll_eq_map, List.map_map]
    exact List.map_congr_left fun u _ => (Value.kindText_bare u).symm
  rw [hkind, h, ← hkind]

/-! ## Print -/

theorem Binary64.text_bare (x : Binary64) : x.bare.text = x.text := by
  by_cases hx : x.isNaN = true
  · rw [bare, if_pos hx, text, text, chars, chars, if_pos (isNaN_nan 0), if_pos hx]
  · rw [bare, if_neg hx]

theorem Value.text?_bare (v : Value) : v.bare.text? = v.text? := by
  cases v <;> rfl

theorem Alias.text_bare (a : Alias) : a.bare.text = a.text := by
  obtain ⟨name, target, token, hfits, handle⟩ := a
  cases target with
  | none => rfl
  | some s =>
    have hkind : (Alias.mk name (some s) token hfits handle).bare.kind =
        (Alias.mk name (some s) token hfits handle).kind := rfl
    rw [text, text, hkind]
    cases (Alias.mk name (some s) token hfits handle).kind <;> rfl

theorem Alias.displayWith_bare (a : Alias) (token : String) :
    displayWith a.bare.name a.bare.target token = displayWith a.name a.target token := by
  obtain ⟨name, target, token, hfits, handle⟩ := a
  cases target <;> rfl

mutual

theorem Value.display_bare (v : Value) : v.bare.display = v.display := by
  cases v with
  | double x => simp only [Value.bare, Value.display, x.text_bare]
  | list vs => simp only [Value.bare, Value.display, Value.displayAll_bare vs]
  | tuple vs => simp only [Value.bare, Value.display, Value.displayAll_bare vs]
  | record ks vs =>
    simp only [Value.bare, Value.display, Value.displayAll_bare ks, Value.displayAll_bare vs]
  | item i => simp only [Value.bare, Value.display, Item.display_bare i]
  | set kind mode es h => simp only [Value.bare, Value.display, Item.texts_bare kind es]
  | _ => rfl

theorem Value.displayAll_bare (vs : List Value) :
    Value.displayAll (Value.bareAll vs) = Value.displayAll vs := by
  cases vs with
  | nil => rfl
  | cons v vs =>
    simp only [Value.bareAll, Value.displayAll, Value.display_bare v, Value.displayAll_bare vs]

theorem Item.display_bare (i : Item) : i.bare.display = i.display := by
  cases i with
  | info i => rfl
  | infoWith n t h =>
    simp only [Item.bare, Item.display, Value.display_bare t]
    rfl
  | selector s => rfl
  | «alias» a =>
    simp only [Item.bare, Item.display, a.displayWith_bare]
    rfl
  | aliasWith n s t h =>
    simp only [Item.bare, Item.display, Value.display_bare t]
    rfl
  | function f => simp only [Item.bare, Item.display, NamedFunction.display_bare f]

theorem NamedFunction.display_bare (f : NamedFunction) : f.bare.display = f.display := by
  obtain ⟨n, o, vs, h⟩ := f
  simp only [NamedFunction.bare, NamedFunction.display, Value.displayAll_bare vs]
  rfl

theorem Value.print_bare (v : Value) : v.bare.print = v.print := by
  cases v with
  | double x => simp only [Value.bare, Value.print, x.text_bare]
  | list vs => simp only [Value.bare, Value.print, Value.displayAll_bare vs]
  | tuple vs => simp only [Value.bare, Value.print, Value.displayAll_bare vs]
  | record ks vs =>
    simp only [Value.bare, Value.print, Value.displayAll_bare ks, Value.displayAll_bare vs]
  | item i => simp only [Value.bare, Value.print, Item.print_bare i]
  | set kind mode es h => simp only [Value.bare, Value.print, Item.texts_bare kind es]
  | _ => rfl

theorem Item.print_bare (i : Item) : i.bare.print = i.print := by
  cases i with
  | info i => rfl
  | infoWith n t h =>
    simp only [Item.bare, Item.print, Value.print_bare t]
    rfl
  | selector s => rfl
  | «alias» a => simp only [Item.bare, Item.print, a.text_bare]
  | aliasWith n s t h =>
    simp only [Item.bare, Item.print, Value.print_bare t]
    rfl
  | function f => simp only [Item.bare, Item.print, NamedFunction.print_bare f]

theorem NamedFunction.print_bare (f : NamedFunction) : f.bare.print = f.print := by
  obtain ⟨n, o, vs, h⟩ := f
  simp only [NamedFunction.bare, NamedFunction.print, Value.printBound_bare vs]
  rfl

theorem Value.printBound_bare (vs : List Value) :
    Value.printBound (Value.bareAll vs) = Value.printBound vs := by
  cases vs with
  | nil => rfl
  | cons v vs =>
    simp only [Value.bareAll, Value.printBound, v.text?_bare, Value.display_bare v,
      Value.print_bare v, Value.printBound_bare vs]

theorem Item.texts_bare (kind : SetKind) (is : List Item) :
    Item.texts kind (Item.bareAll is) = Item.texts kind is := by
  cases is with
  | nil => rfl
  | cons i is =>
    have hprint := Item.print_bare i
    have hrest := Item.texts_bare kind is
    cases kind <;> cases i <;> simp_all only [Item.bareAll, Item.bare, Item.texts]

end

/-- Values that are alike but for their objects are written alike. -/
theorem Value.display_of_bareAll {vs ws : List Value} (h : Value.bareAll vs = Value.bareAll ws) :
    vs.map Value.display = ws.map Value.display := by
  have hdisplay : ∀ us : List Value, us.map Value.display = (Value.bareAll us).map Value.display := by
    intro us
    rw [Value.bareAll_eq_map, List.map_map]
    exact List.map_congr_left fun u _ => (Value.display_bare u).symm
  rw [hdisplay, h, ← hdisplay]

end FunctionCatalog
