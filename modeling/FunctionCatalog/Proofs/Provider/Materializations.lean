import FunctionCatalog.Proofs.ItemSet.Names
import FunctionCatalog.Proofs.Provider.Binding
import FunctionCatalog.Proofs.Provider.Histories

/-
  FunctionCatalog: materializations are stable and apart.
  Every object that a leaf hands out is under one folded name in a ledger, in which a number stands
  for one name (`Leaf.Ledger`). So throughout a history equal calls with simple values get one
  object, calls for different names never do, and each gets a function equal to the one of its name
  with its values bound (`Leaf.stable_and_apart`).
-/

namespace FunctionCatalog

/-! ## Functions with simple values -/

namespace NamedFunction

variable {f : NamedFunction} {vs ws : List Value}

/-- Numbering changes nothing that counts when functions with simple values are compared. -/
theorem same_settle (hf : ∀ v ∈ f.parameters, v.isSimple = true) (next : Nat) (g : NamedFunction) :
    (f.settle.run next).1.same g = f.same g := by
  obtain ⟨n, o, us, h⟩ := f
  obtain ⟨m, p, ws, k⟩ := g
  obtain ⟨k', hrun⟩ : ∃ k', ((⟨n, o, us, h⟩ : NamedFunction).settle.run next).1 =
      ⟨(n.settle.run next).1, o, ((Value.settleAll us).run (n.settle.run next).2).1, k'⟩ :=
    ⟨_, rfl⟩
  rw [hrun, Value.settleAll_of_isSimple hf, same, same]
  rfl

/-- Values that are the same as simple ones are simple, so that in any case simple values end up
bound. -/
theorem isSimple_withParameters (hvs : ∀ v ∈ vs, v.isSimple = true) :
    ∀ v ∈ (f.withParameters vs).parameters, v.isSimple = true := by
  by_cases hsame : Value.allSame vs f.parameters = true
  · rw [withParameters_of_same hsame]
    exact Value.isSimple_of_forall₂ Value.isSimple_of_same hvs (Value.allSame_iff_forall₂.1 hsame)
  · rw [withParameters, if_neg hsame]
    exact hvs

theorem same_withParameters (hvs : ∀ v ∈ vs, v.isSimple = true)
    (h : Value.allAgree vs ws = true) :
    (f.withParameters vs).same (f.withParameters ws) = true := by
  have hsame := Value.allSame_of_simple hvs h f.parameters
  have hparameters := isSimple_withParameters (f := f) hvs
  rw [withParameters] at hparameters ⊢
  rw [withParameters, ← hsame]
  split
  · next hown =>
    rw [if_pos hown] at hparameters
    exact same_refl (by obtain ⟨n, o, us, k⟩ := f; exact Value.allKeys_of_isSimple hparameters)
  · simp [same, Name.same_refl, Value.allSame_of_allAgree h]

/-- With other values a function is another object. -/
theorem handle_withParameters (f : NamedFunction) (vs : List Value) :
    (f.withParameters vs).handle = .loose ∨ (f.withParameters vs).handle = f.handle := by
  rw [withParameters]
  split
  · exact .inr rfl
  · exact .inl rfl

end NamedFunction

/-! ## Numbered items -/

theorem Alias.handle_of_make {n : Name} {target : Option Selector} {token : Option String}
    {a : Alias} (h : make n target token = .ok a) : a.handle = .loose := by
  unfold make at h
  repeat' split at h
  all_goals first | cases h; rfl | cases h

theorem Alias.handle_of_withName {settings : Settings} {n : Name} {a b : Alias}
    (h : a.withName settings n = .ok b) : b.handle = .loose ∨ b.handle = a.handle := by
  unfold withName at h
  split at h
  · cases h
    exact .inr rfl
  · split at h
    · exact .inl (handle_of_make h)
    · obtain ⟨s, -, hmake⟩ := exists_of_bind_ok h
      exact .inl (handle_of_make hmake)

namespace Item

/-- Items as objects under their names. -/
def underNames (is : List Item) : List (String × Handle) :=
  is.map (fun i => (i.name.value, i.handle))

/-- Items that are numbered below `next`, so that a number stands for one name. -/
def Numbered (next : Nat) (is : List Item) : Prop :=
  Handle.Apart next (underNames is)

variable {settings : Settings} {n : Name} {mode : CaseMode} {i j : Item}

/-- An item under a name is the object that it was or a new one. -/
theorem handle_of_withName (h : i.withName settings n = .ok j) :
    j.handle = .loose ∨ j.handle = i.handle := by
  cases i with
  | info i =>
    cases h
    simp only [handle, Info.withName]
    split <;> simp
  | infoWith m t k =>
    cases h
    split <;> simp [handle]
  | selector s =>
    cases h
    simp only [handle, Selector.withName]
    split <;> simp
  | «alias» a =>
    obtain ⟨b, hb, rfl⟩ := exists_of_map_ok h
    exact Alias.handle_of_withName hb
  | aliasWith m s t k =>
    rw [withName] at h
    split at h
    · cases h
      exact .inr rfl
    · obtain ⟨s', -, heq⟩ := exists_of_bind_ok h
      cases heq
      exact .inl rfl
  | function f =>
    cases h
    simp only [handle, NamedFunction.withName]
    split <;> simp

theorem handle_of_withMode (h : i.withMode settings mode = .ok j) :
    j.name.value = i.name.value ∧ (j.handle = .loose ∨ j.handle = i.handle) := by
  obtain ⟨n, hn, h⟩ := exists_of_bind_ok h
  have halike := alike_of_withName h
  rw [Name.alike, Bool.and_eq_true, beq_iff_eq] at halike
  rw [← halike.1, Name.value_of_withMode (ok_of_mapError_ok hn)]
  exact ⟨rfl, handle_of_withName h⟩

end Item

namespace Leaf

variable {leaf : Leaf} {settings : Settings} {mode : CaseMode} {url : String}
  {functions items : List Item} {next : Nat} {memory : Memory (List Materialization)}
  {issued : List (String × Handle)} {key : String} {f : NamedFunction} {vs ws : List Value}

theorem exists_of_functionsOf (h : functionsOf settings mode (functions.map .item) = .ok items) :
    ∀ j ∈ items, ∃ i ∈ functions, i.withMode settings mode = .ok j := by
  unfold functionsOf at h
  split at h
  · cases h
  · intro j hj
    obtain ⟨v, hv, hj⟩ := exists_of_mem_mapM h j hj
    obtain ⟨i, hi, rfl⟩ := List.mem_map.1 hv
    exact ⟨i, hi, ok_of_mapError_ok hj⟩

/-- The items that a leaf is made of are numbered if those are that it was given. -/
theorem numbered_of_functionsOf (hn : Item.Numbered next functions)
    (h : functionsOf settings mode (functions.map .item) = .ok items) :
    Item.Numbered next items := by
  refine hn.relabel id fun y hy => ?_
  obtain ⟨j, hj, rfl⟩ := List.mem_map.1 hy
  obtain ⟨i, hi, hj⟩ := exists_of_functionsOf h j hj
  obtain ⟨hvalue, hhandle⟩ := Item.handle_of_withMode hj
  refine hhandle.imp id fun hhandle => ⟨(i.name.value, i.handle), List.mem_map_of_mem hi, ?_⟩
  rw [hvalue, hhandle]
  rfl

/-! ## The ledger of a leaf -/

/-- The objects of a leaf, what it keeps and what it has handed out are under the folded names that
they are for, and a number stands for one name. -/
structure Ledger (leaf : Leaf) (memory : Memory (List Materialization))
    (issued : List (String × Handle)) : Prop where
  apart : Handle.Apart memory.next issued
  functions : ∀ x ∈ leaf.functions, (x.1, x.2.handle) ∈ issued
  kept : ∀ m ∈ memory.state, (m.key, m.function.handle) ∈ issued

theorem exists_ledger (hn : Item.Numbered next functions)
    (h : make settings mode url (functions.map .item) = .ok leaf) :
    ∃ issued, leaf.Ledger ⟨next, []⟩ issued := by
  obtain ⟨items, hitems, h⟩ := exists_of_bind_ok h
  split at h
  · obtain ⟨infos, -, h⟩ := exists_of_bind_ok h
    obtain ⟨catalog, -, h⟩ := exists_of_bind_ok h
    obtain rfl := Except.ok.inj h
    refine ⟨items.map (fun f => (f.name.key, f.handle)), ?_, ?_, ?_⟩
    · refine (numbered_of_functionsOf hn hitems).relabel mode.fold fun y hy => .inr ?_
      obtain ⟨f, hf, rfl⟩ := List.mem_map.1 hy
      refine ⟨_, List.mem_map_of_mem hf, ?_⟩
      obtain ⟨i, -, hi⟩ := exists_of_functionsOf hitems f hf
      rw [Name.key, Item.mode_of_withMode hi]
    · intro x hx
      obtain ⟨f, hf, rfl⟩ := List.mem_map.1 hx
      exact List.mem_map_of_mem hf
    · exact fun m hm => absurd hm List.not_mem_nil
  · cases h

theorem Ledger.later (h : leaf.Ledger memory issued) (made : Nat) :
    leaf.Ledger ⟨memory.next + made, memory.state⟩ issued :=
  ⟨h.apart.mono (Nat.le_add_right _ _), h.functions, h.kept⟩

theorem mem_of_function {item : Item} (h : leaf.function? key = some item) :
    (key, item) ∈ leaf.functions := by
  obtain ⟨⟨key', item'⟩, hfound, rfl⟩ := Option.map_eq_some_iff.1 h
  have hkey : key' = key := by simpa using List.find?_some hfound
  exact hkey ▸ List.mem_of_find?_eq_some hfound

/-- A function with values bound to it is put down under its name. -/
theorem Ledger.bound (h : leaf.Ledger memory issued)
    (hf : leaf.function? key = some (.function f)) (vs : List Value)
    {kept : List Materialization}
    (hkept : ∀ m ∈ kept, m ∈ memory.state ∨ m = ⟨key, vs, (bound f vs memory.next).1⟩) :
    leaf.Ledger ⟨(Leaf.bound f vs memory.next).2, kept⟩
      ((key, (Leaf.bound f vs memory.next).1.handle) :: issued) where
  apart := by
    refine h.apart.cons (NamedFunction.le_settle _ _)
      ((f.handle_withParameters vs).imp id fun hown => ?_) (NamedFunction.settles_settle _ _)
    rw [hown]
    exact h.functions _ (mem_of_function hf)
  functions x hx := List.mem_cons_of_mem _ (h.functions x hx)
  kept m hm := by
    rcases hkept m hm with hm | rfl
    · exact List.mem_cons_of_mem _ (h.kept m hm)
    · exact List.mem_cons_self

/-- A call keeps the ledger, with what it hands out put down under the name that it is for. -/
theorem Does.exists_ledger {c : Call} {r : Except Failure Value × Memory (List Materialization)}
    (hdoes : leaf.Does c memory r) (h : leaf.Ledger memory issued) :
    ∃ issued', (∀ x ∈ issued, x ∈ issued') ∧ leaf.Ledger r.2 issued' ∧
      ∀ key v, leaf.calledKey c = some key → r.1 = .ok v →
        ∃ i, v = .item i ∧ (key, i.handle) ∈ issued' := by
  cases hdoes with
  | fails hasks e => exact ⟨issued, fun x hx => hx, h, fun key v _ hv => by cases hv⟩
  | asIs hasks hkey hitem =>
    refine ⟨issued, fun x hx => hx, h, fun key v hcalled hv => ?_⟩
    cases hv
    obtain rfl := Option.some.inj (hkey.symm.trans hcalled)
    exact ⟨_, rfl, h.functions _ (mem_of_function hitem)⟩
  | again hasks hkeys hm =>
    refine ⟨issued, fun x hx => hx, h, fun key v hcalled hv => ?_⟩
    cases hv
    obtain rfl := Option.some.inj (hasks.called.symm.trans hcalled)
    obtain ⟨hmem, hkey, -⟩ := eq_of_lookup hm
    exact ⟨_, rfl, hkey ▸ h.kept _ hmem⟩
  | @keeps key f vs hasks hkeys hnone =>
    refine ⟨_, fun x hx => List.mem_cons_of_mem _ hx,
      h.bound hasks.known vs (fun m hm => by simpa using hm), fun key' v hcalled hv => ?_⟩
    cases hv
    obtain rfl := Option.some.inj (hasks.called.symm.trans hcalled)
    exact ⟨_, rfl, List.mem_cons_self⟩
  | @binds key f vs hasks hkeys =>
    refine ⟨_, fun x hx => List.mem_cons_of_mem _ hx,
      h.bound hasks.known vs (fun m hm => .inl hm), fun key' v hcalled hv => ?_⟩
    cases hv
    obtain rfl := Option.some.inj (hasks.called.symm.trans hcalled)
    exact ⟨_, rfl, List.mem_cons_self⟩

/-- After a history all that was handed out is put down under the names that it was asked for. -/
theorem Ledger.exists_play (h : leaf.Ledger memory issued) (turns : List Turn) :
    ∃ issued', (∀ x ∈ issued, x ∈ issued') ∧ leaf.Ledger (leaf.play memory turns).2 issued' ∧
      ∀ x ∈ (leaf.play memory turns).1, ∀ key v, leaf.calledKey x.1.call = some key →
        x.2 = .ok v → ∃ i, v = .item i ∧ (key, i.handle) ∈ issued' := by
  induction turns generalizing memory issued with
  | nil => exact ⟨issued, fun x hx => hx, h, fun x hx => absurd hx List.not_mem_nil⟩
  | cons t ts ih =>
    obtain ⟨first, hfirst, hledger, hgot⟩ :=
      (leaf.does_turn memory t).exists_ledger (h.later t.made)
    obtain ⟨issued', hrest, hledger', hresults⟩ := ih hledger
    refine ⟨issued', fun x hx => hrest x (hfirst x hx), hledger', fun x hx key v hcalled hv => ?_⟩
    rcases List.mem_cons.1 hx with rfl | hx
    · obtain ⟨i, rfl, hi⟩ := hgot key v hcalled hv
      exact ⟨i, rfl, hrest _ hi⟩
    · exact hresults x hx key v hcalled hv

/-! ## Materializations -/

/-- What is kept for simple values is an object and equal to the function with these bound. -/
theorem Made.equal {m : Materialization} (h : leaf.Made m)
    (hf : leaf.function? m.key = some (.function f)) (hvs : ∀ v ∈ vs, v.isSimple = true)
    (hagree : Value.allAgree m.values vs = true) :
    (Value.item (.function m.function)).equal (.item (.function (f.withParameters vs))) = true ∧
      (Value.item (.function m.function)).identical (.item (.function m.function)) = true := by
  obtain ⟨hkeys, g, next, hg, hmade⟩ := h
  obtain rfl : f = g := by simpa using hf.symm.trans hg
  have hvalues : ∀ v ∈ m.values, v.isSimple = true := by
    rw [Value.allAgree_comm hkeys] at hagree
    exact Value.isSimple_of_forall₂ Value.isSimple_of_agrees hvs
      (Value.allAgree_iff_forall₂.1 hagree)
  constructor
  · show Value.same _ _ = true
    rw [Value.same, Item.same, hmade, Leaf.bound,
      NamedFunction.same_settle (NamedFunction.isSimple_withParameters hvalues)]
    exact NamedFunction.same_withParameters hvalues hagree
  · obtain ⟨n, hn⟩ := ((f.withParameters m.values).settles_settle next).exists_number
    show m.function.handle.same m.function.handle = true
    rw [hmade, Leaf.bound, hn]
    exact Handle.same_object n

/-- Throughout any history of a leaf each call for a known name with simple values gets an object
that equals the function of this name with the values bound to it, and all calls for this folded
name with equal values of the same kinds get the same one. If the functions were told apart by their
numbers at the start, calls for different folded names never get one object, whatever their values
are. -/
theorem stable_and_apart (h : make settings mode url (functions.map .item) = .ok leaf)
    (next : Nat) (turns : List Turn) :
    (leaf.play ⟨next, []⟩ turns).1.map (·.1) = turns ∧
    (∀ x ∈ (leaf.play ⟨next, []⟩ turns).1, ∀ key f vs, leaf.Asks x.1.call key f vs →
      (∀ v ∈ vs, v.isSimple = true) → ∃ g, x.2 = .ok (.item (.function g)) ∧
        (Value.item (.function g)).equal (.item (.function (f.withParameters vs))) = true ∧
        (Value.item (.function g)).identical (.item (.function g)) = true ∧
        ∀ y ∈ (leaf.play ⟨next, []⟩ turns).1, ∀ ws, leaf.Asks y.1.call key f ws →
          List.Forall₂ Value.Matches vs ws → y.2 = .ok (.item (.function g))) ∧
    (Item.Numbered next functions →
      ∀ x ∈ (leaf.play ⟨next, []⟩ turns).1, ∀ y ∈ (leaf.play ⟨next, []⟩ turns).1,
        ∀ key key', leaf.calledKey x.1.call = some key → leaf.calledKey y.1.call = some key' →
          key ≠ key' → ∀ v w, x.2 = .ok v → y.2 = .ok w → v.identical w = false) := by
  obtain ⟨kept, -, hmade, hturns, hgot⟩ := leaf.exists_play turns ⟨next, []⟩
  rw [List.nil_append] at hgot
  refine ⟨hturns, ?_, ?_⟩
  · intro x hx key f vs hasks hvs
    obtain ⟨m, hm, hx⟩ := hgot x hx key f vs hasks (Value.allKeys_of_isSimple hvs)
    obtain ⟨hmem, rfl, hagree⟩ := eq_of_lookup hm
    obtain ⟨hequal, hself⟩ := (hmade m hmem).equal hasks.known hvs hagree
    refine ⟨m.function, hx, hequal, hself, fun y hy ws hasks' hmatches => ?_⟩
    have hagree' := Value.allAgree_of_matches hmatches
    have hws := Value.isSimple_of_forall₂ Value.isSimple_of_agrees hvs
      (Value.allAgree_iff_forall₂.1 hagree')
    obtain ⟨m', hm', hy⟩ := hgot y hy _ f ws hasks' (Value.allKeys_of_isSimple hws)
    rw [← lookup_of_allAgree hvs hagree', hm] at hm'
    rw [hy, Option.some.inj hm']
  · intro hn x hx y hy key key' hkey hkey' hne v w hv hw
    obtain ⟨issued, hledger⟩ := exists_ledger hn h
    obtain ⟨issued', -, hledger', hput⟩ := hledger.exists_play turns
    obtain ⟨i, rfl, hi⟩ := hput x hx key v hkey hv
    obtain ⟨j, rfl, hj⟩ := hput y hy key' w hkey' hw
    rw [Value.identical, Bool.eq_false_iff]
    exact fun hsame => hne (hledger'.apart.label _ hi _ hj hsame)

/-! ### The two zeros in two spellings -/

def loudName : Name where
  value := "ECHO"
  mode := .insensitive
  isName_value := by decide

def largestName : Name where
  value := "largest"
  mode := .insensitive
  isName_value := by decide

def echoAndLargest : List Item :=
  [.function (.make echoName .echo []), .function (.make largestName .max [])]

/-- A leaf of two functions, under names of any case. -/
def loudLeaf : Leaf :=
  match make {} .insensitive "u" (echoAndLargest.map .item) with
  | .ok leaf => leaf
  | .error _ => echoing

/-- A request for a function with a zero of a sign. -/
def zeroCall (n : Name) (negative : Bool) : Call :=
  .ofName n [.double (.zero negative)] .null

/-- Binds one zero to a function, then to the other function while an object is made elsewhere, and
binds the other zero to the first one under its name in capitals. -/
def zeroTurns : List Turn :=
  [⟨{}, 0, zeroCall echoName false⟩, ⟨{}, 1, zeroCall largestName false⟩,
    ⟨{}, 0, zeroCall loudName true⟩]

/-- The zeros are equal numbers, so the last call gets the object of the first, and the call between
them gets another one. -/
theorem stable_and_apart_zeros :
    make {} .insensitive "u" (echoAndLargest.map .item) = .ok loudLeaf ∧
    Item.Numbered 0 echoAndLargest ∧
    ∃ f g : NamedFunction, (loudLeaf.play ⟨0, []⟩ zeroTurns).1.map (·.2) =
        [.ok (.item (.function g)), .ok (.item (.function f)), .ok (.item (.function g))] ∧
      (Value.item (.function g)).identical (.item (.function f)) = false := by
  have hleaf : make {} .insensitive "u" (echoAndLargest.map .item) = .ok loudLeaf := rfl
  have hn : Item.Numbered 0 echoAndLargest := by
    refine ⟨fun x hx n hx' => ?_, fun x hx y hy hsame => ?_⟩ <;>
      rcases List.mem_pair.1 hx with rfl | rfl
    · cases hx'
    · cases hx'
    · cases hsame
    · cases hsame
  refine ⟨hleaf, hn, ?_⟩
  obtain ⟨r, r', r'', hplay⟩ : ∃ r r' r'', (loudLeaf.play ⟨0, []⟩ zeroTurns).1 =
      [(⟨{}, 0, zeroCall echoName false⟩, r), (⟨{}, 1, zeroCall largestName false⟩, r'),
        (⟨{}, 0, zeroCall loudName true⟩, r'')] :=
    ⟨_, _, _, rfl⟩
  obtain ⟨f, hf⟩ : ∃ f, loudLeaf.function? "echo" = some (.function f) := ⟨_, rfl⟩
  obtain ⟨f', hf'⟩ : ∃ f', loudLeaf.function? "largest" = some (.function f') := ⟨_, rfl⟩
  obtain ⟨-, hcalls, hapart⟩ := stable_and_apart hleaf 0 zeroTurns
  rw [hplay] at hcalls hapart ⊢
  have hzero : ∀ v ∈ [Value.double (.zero false)], v.isSimple = true := by decide +kernel
  have hmatches : List.Forall₂ Value.Matches [.double (.zero false)] [.double (.zero true)] :=
    .cons ⟨rfl, by decide +kernel⟩ .nil
  have hloud : loudLeaf.calledKey (zeroCall loudName true) = some "echo" := by decide +kernel
  obtain ⟨g, rfl, -, -, hlater⟩ := hcalls _ List.mem_cons_self "echo" f _
    ⟨rfl, hf, rfl, List.cons_ne_nil _ _⟩ hzero
  obtain ⟨g', rfl, -, -, -⟩ := hcalls _ (List.mem_cons_of_mem _ List.mem_cons_self) "largest" f' _
    ⟨rfl, hf', rfl, List.cons_ne_nil _ _⟩ hzero
  obtain rfl : r'' = .ok (.item (.function g)) :=
    hlater _ (List.mem_cons_of_mem _ (List.mem_cons_of_mem _ List.mem_cons_self)) _
      ⟨hloud, hf, rfl, List.cons_ne_nil _ _⟩ hmatches
  exact ⟨g', g, rfl, hapart hn _ List.mem_cons_self _ (List.mem_cons_of_mem _ List.mem_cons_self)
    "echo" "largest" rfl rfl (by decide) _ _ rfl rfl⟩

end Leaf

end FunctionCatalog
