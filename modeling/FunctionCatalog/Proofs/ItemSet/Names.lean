import FunctionCatalog.ItemSet.Alias
import FunctionCatalog.ItemSet.Token
import FunctionCatalog.Proofs.Name
import FunctionCatalog.Proofs.NamedSet.Names

/-
  FunctionCatalog: which names a set of items has.
  Bringing an item into a mode, giving it a token or numbering it leaves the text of its name as it
  is. What shows through an alias set and what is renamed by token is built of items, so it has
  their names.
-/

namespace FunctionCatalog

variable {settings : Settings} {mode : CaseMode}

/-! ## Items under other names -/

theorem Alias.alike_of_withName {n : Name} {a b : Alias} (h : a.withName settings n = .ok b) :
    n.alike b.name = true := by
  unfold withName at h
  split at h
  · next hsame =>
    cases h
    exact hsame
  · split at h
    · rw [name_of_make h]
      exact n.alike_refl
    · obtain ⟨s, -, hmake⟩ := exists_of_bind_ok h
      rw [name_of_make hmake]
      exact n.alike_refl

/-- Whatever an item is, it has the name that it takes. -/
theorem Item.alike_of_withName {n : Name} {i j : Item} (h : i.withName settings n = .ok j) :
    n.alike j.name = true := by
  cases i with
  | info i =>
    cases h
    exact Name.alike_keep Info.name rfl
  | infoWith m t k =>
    cases h
    have hold : (Item.infoWith m t k).name = m := rfl
    rw [← hold]
    exact Name.alike_keep Item.name rfl
  | selector s =>
    cases h
    exact Name.alike_keep Selector.name rfl
  | «alias» a =>
    obtain ⟨b, hb, rfl⟩ := exists_of_map_ok h
    exact Alias.alike_of_withName hb
  | aliasWith m s t k =>
    rw [withName] at h
    by_cases hm : n.alike m = true
    · rw [if_pos hm] at h
      cases h
      exact hm
    · rw [if_neg hm] at h
      obtain ⟨s', -, heq⟩ := exists_of_bind_ok h
      cases heq
      exact n.alike_refl
  | function f =>
    cases h
    exact Name.alike_keep NamedFunction.name rfl

theorem NamedFunction.name_same {f g : NamedFunction} (h : f.same g = true) :
    f.name.same g.name = true := by
  cases f
  cases g
  rw [NamedFunction.same, Bool.and_eq_true, Bool.and_eq_true] at h
  exact h.1.1

/-- Items of two kinds are different, and those of one kind compare by their names first. -/
theorem Item.name_same {i j : Item} (h : i.same j = true) : i.name.same j.name = true := by
  cases i <;> cases j <;>
    simp only [Item.same, Info.same, Selector.same, Alias.same, Bool.and_eq_true, and_assoc,
      Bool.false_eq_true] at h
  case function.function f g => exact NamedFunction.name_same h
  all_goals exact h.1

theorem Item.name_of_makeInfo {n : Name} {token : Value} {i : Item}
    (h : makeInfo n token = .ok i) :
    i.name = n := by
  unfold makeInfo at h
  split at h
  · obtain ⟨info, hinfo, rfl⟩ := exists_of_map_ok h
    have hmake := ok_of_mapError_ok hinfo
    unfold Info.make at hmake
    split at hmake <;> cases hmake
    rfl
  · obtain ⟨-, -, hpure⟩ := exists_of_bind_ok h
    cases hpure
    rfl

instance : LawfulEntry Info where
  value_of_withMode := by
    intro settings mode i j h
    obtain ⟨n, hn, heq⟩ := exists_of_bind_ok (show i.withMode settings mode = .ok j from h)
    obtain rfl := Except.ok.inj heq
    have halike : n.alike (i.withName n).name = true := Name.alike_keep Info.name rfl
    exact (Name.value_of_alike halike).symm.trans (Name.value_of_withMode (ok_of_mapError_ok hn))
  name_same := by
    intro i j h
    have hparts : (i.name.same j.name && i.token == j.token) = true := h
    exact (Bool.and_eq_true_iff.1 hparts).1

instance : LawfulEntry Item where
  value_of_withMode := by
    intro settings mode i j h
    obtain ⟨n, hn, hname⟩ := exists_of_bind_ok (show i.withMode settings mode = .ok j from h)
    exact (Name.value_of_alike (Item.alike_of_withName hname)).symm.trans
      (Name.value_of_withMode (ok_of_mapError_ok hn))
  name_same := Item.name_same

/-! ## Numbered items -/

/-- A numbered item has the name that it had. -/
theorem Item.alike_settle (i : Item) (next : Nat) :
    (i.settle.run next).1.name.alike i.name = true := by
  cases i with
  | info i => exact i.name.alike_settle next
  | infoWith n t h => exact n.alike_settle next
  | selector s => exact s.name.alike_settle next
  | «alias» a =>
    obtain ⟨name, target, token, handle, hfits⟩ := a
    cases target <;> exact name.alike_settle next
  | aliasWith n s t h => exact n.alike_settle next
  | function f =>
    cases f
    exact Name.alike_settle _ next

theorem Item.map_key_settleAll (items : List Item) (next : Nat) :
    ((Item.settleAll items).run next).1.map Entry.key = items.map Entry.key := by
  induction items generalizing next with
  | nil => rfl
  | cons i items ih =>
    have hkey : Entry.key (i.settle.run next).1 = Entry.key i :=
      Name.key_of_alike (i.alike_settle next)
    show Entry.key (i.settle.run next).1 ::
      ((Item.settleAll items).run (i.settle.run next).2).1.map Entry.key = _
    rw [hkey, ih]
    rfl

namespace ItemSet

variable {s t : ItemSet} {i : Item}

/-- A numbered set is that of its numbered entries, if not the set itself. -/
theorem settle_cases (s : ItemSet) (next : Nat) :
    (s.settle.run next).1 = s ∨
      (s.settle.run next).1.kind = s.kind ∧ (s.settle.run next).1.mode = s.mode ∧
        (s.settle.run next).1.entries = ((Item.settleAll s.entries).run next).1 := by
  rcases hentries : (Item.settleAll s.entries).run next with ⟨entries, next'⟩
  have hrun : (s.settle.run next).1 = (ofValue? (.set s.kind s.mode entries
      (s.set.handle.settle.run next').1)).getD s := by
    have hset : (s.settle.run next).1 = (ofValue? (.set s.kind s.mode
        ((Item.settleAll s.entries).run next).1
        (s.set.handle.settle.run ((Item.settleAll s.entries).run next).2).1)).getD s := rfl
    rw [hset, hentries]
  rw [hrun]
  cases hset : NamedSet.ofEntries? s.mode entries (s.set.handle.settle.run next').1 with
  | none =>
    rw [ofValue?, hset]
    exact .inl rfl
  | some u =>
    rw [ofValue?, hset]
    exact .inr ⟨rfl, NamedSet.eq_of_ofEntries hset⟩

/-- Numbering a set and its entries leaves its mode and its names. -/
theorem containsName_settle (s : ItemSet) (next : Nat) :
    (s.settle.run next).1.mode = s.mode ∧
      ∀ text, (s.settle.run next).1.set.containsName text = s.set.containsName text := by
  rcases settle_cases s next with heq | ⟨-, hmode, hentries⟩
  · rw [heq]
    exact ⟨rfl, fun text => rfl⟩
  · refine ⟨hmode, fun text => NamedSet.containsName_of_keys hmode ?_ text⟩
    have hkeys := Item.map_key_settleAll s.entries next
    rwa [← hentries] at hkeys

/-! ## Sets of items -/

theorem containsName_asItems (infos : InfoSet) (text : String) :
    infos.asItems.set.containsName text = infos.containsName text :=
  NamedSet.containsName_lift Item.info (fun _ => rfl) infos text

theorem containsName_of {kind : SetKind} {items : List Item}
    (h : of settings kind mode items = .ok t) :
    t.mode = mode ∧ ∀ i ∈ items, t.set.containsName i.name.value = true := by
  obtain ⟨u, hu, rfl⟩ := exists_of_map_ok h
  have hof := ok_of_mapError_ok hu
  exact ⟨(NamedSet.exists_converted_of hof).1, fun i hi => NamedSet.containsName_of hof hi⟩

/-- Each entry is there under the name of the first rename with its token, or else under its own. -/
theorem containsName_renameIfPresent {renames : List Value}
    (h : s.renameIfPresent settings renames = .ok t) :
    t.mode = s.mode ∧ ∃ held, renames.mapM Tokened.ofValue = .ok held ∧
      ∀ i ∈ s.entries, ∀ w, Tokened.ofItem i = .ok w →
        t.set.containsName ((Tokened.find? held w.token).getD i).name.value = true := by
  obtain ⟨held, hheld, hsteps⟩ := exists_of_bind_ok h
  obtain ⟨u, hu, rfl⟩ := exists_of_map_ok hsteps
  obtain ⟨hmode, hnames⟩ := NamedSet.containsName_updateSteps hu
  refine ⟨hmode, held, hheld, fun i hi w hw => hnames _ (List.mem_map.2 ⟨i, hi, ?_⟩)⟩
  obtain ⟨token, htoken, hpure⟩ := exists_of_bind_ok hw
  obtain rfl := Except.ok.inj hpure
  rw [htoken]
  rfl

/-! ## What shows through an alias set -/

variable {catalog : Name → Except Failure (Option Item)}

/-- A forwarded name shows what the catalog has under it. -/
theorem shown_of_forwarded (h : i.target = .ok none) :
    shown? settings catalog i = catalog i.name := by
  rw [shown?, h]
  rfl

/-- An alias of a target is shown under its own name. -/
theorem name_of_shown {selector : Selector} {found : Option Item}
    (h : i.target = .ok (some selector)) (hshown : shown? settings catalog i = .ok found) :
    ∃ j, found = some j ∧ j.name = i.name := by
  have hfinal : ∀ token : Value,
      (do let j ← Item.makeInfo i.name token; pure (some j)) = Except.ok found →
        ∃ j, found = some j ∧ j.name = i.name := by
    intro token hinfo
    obtain ⟨j, hj, hpure⟩ := exists_of_bind_ok hinfo
    exact ⟨j, (Except.ok.inj hpure).symm, Item.name_of_makeInfo hj⟩
  rw [shown?, h] at hshown
  obtain ⟨token, -, hshown⟩ := exists_of_bind_ok (show (i.token >>= _) = _ from hshown)
  -- The token is the alias's own, that of its target, or one made from its name.
  split at hshown
  · obtain ⟨target, -, hshown⟩ := exists_of_bind_ok hshown
    split at hshown
    · obtain ⟨own, -, hinfo⟩ := exists_of_bind_ok hshown
      exact hfinal own hinfo
    · exact hfinal _ hshown
  · exact hfinal _ hshown

/-- Whatever shows of an entry is in the merged catalog. -/
theorem containsName_merge (h : s.merge settings catalog = .ok t) :
    t.mode = s.mode ∧ ∀ i ∈ s.entries, ∃ found, shown? settings catalog i = .ok found ∧
      ∀ j ∈ found, t.set.containsName j.name.value = true := by
  obtain ⟨shown, hshown, hof⟩ := exists_of_bind_ok h
  obtain ⟨hmode, hnames⟩ := containsName_of hof
  refine ⟨hmode, fun i hi => ?_⟩
  obtain ⟨found, hfound, heq⟩ := exists_of_mapM_ok hshown i hi
  exact ⟨found, heq, fun j hj => hnames j (List.mem_filterMap.2 ⟨found, hfound, hj⟩)⟩

end ItemSet

end FunctionCatalog
