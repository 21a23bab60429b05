import FunctionCatalog.Proofs.ItemSet
import FunctionCatalog.Proofs.ItemSet.Names
import FunctionCatalog.Proofs.NamedSet.Replacement
import FunctionCatalog.Session.Sets

/-
  FunctionCatalog: changing sets of items by arguments in another mode.
  What a set takes in is brought into its mode, but what it is to drop is not: there an argument that
  ignores case takes the case variants of its name along. `change_eq_change_iff` says for every
  change when two arguments come to the same, and what it comes to for infos.
-/

namespace FunctionCatalog

variable {settings : Settings} {mode : CaseMode}

instance : SteadyEntry Info where
  withMode_of_mode := by
    rintro settings _ i rfl
    show i.withMode settings i.name.mode = .ok i
    rw [Info.withMode_of_canTake (.inl rfl), Info.inMode, if_pos rfl]

instance : SteadyEntry Item where
  withMode_of_mode := by
    intro settings mode i hmode
    have hname : i.name.withMode settings mode = .ok i.name := if_pos hmode
    show (Rejection.ofName (i.name.withMode settings mode) >>= fun n => i.withName settings n) = _
    rw [hname]
    show i.withName settings i.name = .ok i
    cases i with
    | info i => exact congrArg (fun i => Except.ok (Item.info i)) (if_pos i.name.alike_refl)
    | infoWith n t h => exact congrArg Except.ok (if_pos n.alike_refl)
    | selector s => exact congrArg (fun s => Except.ok (Item.selector s)) (if_pos s.name.alike_refl)
    | «alias» a =>
      have ha : a.withName settings a.name = .ok a := if_pos a.name.alike_refl
      exact congrArg (Except.map Item.alias) ha
    | aliasWith n s t h => exact if_pos n.alike_refl
    | function f => exact congrArg (fun f => Except.ok (Item.function f)) (if_pos f.name.alike_refl)

namespace ItemSet

variable {s : ItemSet} {x x' y y' : Item}

theorem ofChange_inj {a b : Except Rejection (NamedSet Item)} :
    s.ofChange a = s.ofChange b ↔ a = b := by
  refine ⟨fun h => ?_, congrArg _⟩
  cases a <;> cases b <;> cases h <;> rfl

theorem replace_eq (settings : Settings) (s : ItemSet) (x y : Item) :
    s.change settings .replace [.item x, .item y] =
      s.ofChange (s.set.replace settings x y) := by
  show (if s.set.contains x then s.ofChange (s.set.replace settings x y) else .ok s) = _
  by_cases hold : s.set.contains x = true
  · rw [if_pos hold]
  · rw [if_neg hold, NamedSet.replace, if_neg hold]
    rfl

theorem replace_eq_replace_iff : s.change settings .replace [.item x, .item y] =
    s.change settings .replace [.item x', .item y'] ↔
      s.set.replace settings x y = s.set.replace settings x' y' := by
  rw [replace_eq, replace_eq, ofChange_inj]

/-! ## Infos -/

theorem same_info_iff {i j : Info} : (Item.info j).same (.info i) = true ↔
    j.name.same i.name = true ∧ j.token = i.token := by
  rw [Item.same, Info.same, Bool.and_eq_true, beq_iff_eq]

theorem fold_of_mem {j : Info} (hj : .info j ∈ s.entries) :
    Entry.key (Item.info j) = s.mode.fold j.name.value ∧ j.name.mode = s.mode := by
  have hmode : j.name.mode = s.mode := s.set.mode_of_mem _ hj
  exact ⟨congrArg (fun m => CaseMode.fold m j.name.value) hmode, hmode⟩

/-- What an info of a set is equal to when that has taken the mode of the set. -/
theorem same_converted_info_iff {i j : Info}
    (hx : (Item.info i).withMode settings s.mode = .ok x') (hj : .info j ∈ s.entries) :
    (Item.info j).same x' = true ↔
      s.mode.fold j.name.value = s.mode.fold i.name.value ∧ j.token = i.token := by
  have hi := Item.withMode_info (Item.canTake_of_withMode hx)
  have hname := NamedSet.name_same_iff_of_withMode (s := s.set) hx hj
  obtain rfl : .info (i.inMode s.mode) = x' := Except.ok.inj (hi.symm.trans hx)
  rw [(fold_of_mem hj).1] at hname
  rw [same_info_iff, (i.inMode_eq s.mode).2.2]
  exact and_congr_left' hname

theorem name_same_of_fold {i j : Info} (hj : .info j ∈ s.entries)
    (h : s.mode.fold j.name.value = s.mode.fold i.name.value) : j.name.same i.name = true := by
  refine NamedSet.same_of_fold ?_
  rwa [(fold_of_mem hj).2]

/-- A set of infos compares alike with an info and with what it is in the mode of the set exactly
if it has no info of the same token under a case variant of the name. -/
theorem comparesAlike_info_iff {i : Info} (hs : ∀ e ∈ s.entries, ∃ j, e = .info j)
    (hx : (Item.info i).withMode settings s.mode = .ok x') :
    s.set.ComparesAlike (.info i) x' ↔
      ∀ e ∈ s.entries, e.same (.info i) = true →
        s.mode.fold e.name.value = s.mode.fold i.name.value := by
  constructor
  · intro h e he hsame
    obtain ⟨j, rfl⟩ := hs e he
    exact ((same_converted_info_iff hx he).1 ((h _ he).symm.trans hsame)).1
  · intro h e he
    obtain ⟨j, rfl⟩ := hs e he
    refine Bool.eq_iff_iff.2 ((same_info_iff.trans ?_).trans (same_converted_info_iff hx he).symm)
    refine and_congr_left fun htoken => ⟨fun hname => ?_, name_same_of_fold he⟩
    exact h _ he (same_info_iff.2 ⟨hname, htoken⟩)

/-- Whether an info is in a set of infos does not depend on its mode. -/
theorem contains_info {i : Info} (hs : ∀ e ∈ s.entries, ∃ j, e = .info j)
    (hx : (Item.info i).withMode settings s.mode = .ok x') :
    s.contains (.item (.info i)) = s.contains (.item x') := by
  have hvalue : (Entry.name x').value = (Entry.name (Item.info i)).value :=
    LawfulEntry.value_of_withMode (show Entry.withMode settings s.mode (Item.info i) = .ok x' from hx)
  show s.set.contains (.info i) = s.set.contains x'
  unfold NamedSet.contains NamedSet.get?
  rw [hvalue]
  cases hfind : s.set.find? (s.set.fold (Entry.name (Item.info i)).value) with
  | none => rfl
  | some e =>
    have he : e ∈ s.entries := List.mem_of_find?_eq_some hfind
    obtain ⟨j, rfl⟩ := hs e he
    have hkey : s.mode.fold j.name.value = s.mode.fold i.name.value := by
      have hfound := List.find?_some hfind
      rw [← (fold_of_mem he).1]
      exact beq_iff_eq.1 hfound
    refine Bool.eq_iff_iff.2 ((same_info_iff.trans ?_).trans (same_converted_info_iff hx he).symm)
    exact and_congr_left' (iff_of_true (name_same_of_fold he hkey) hkey)

/-- In a set that ignores case no two infos are case variants of each other, and an info that has
the mode of the set compares as it does. -/
theorem fold_of_same {i : Info} (hmode : s.mode = .insensitive ∨ i.name.mode = s.mode) {e : Item}
    (he : e ∈ s.entries) (h : e.same (.info i) = true) :
    s.mode.fold e.name.value = s.mode.fold i.name.value := by
  have hname := Item.name_same h
  have hjoin : e.name.mode.join i.name.mode = s.mode := by
    have he' : e.name.mode = s.mode := s.set.mode_of_mem e he
    rw [he']
    rcases hmode with hmode | hmode
    · rw [hmode]
      cases i.name.mode <;> rfl
    · rw [hmode]
      exact s.mode.join_self
  have hi : (Item.info i).name = i.name := rfl
  rw [Name.same, hi, hjoin, beq_iff_eq] at hname
  exact hname

/-- Two arguments come to the same: in a deletion exactly if all entries compare with both alike,
for the question whether they are in the set and for a replacement if so and the names are one
under the mode of the set, for what comes into the set if they are one entry in its mode, and for a
replacement by name, compared with the argument in the mode of the set, exactly if no entry is a
case variant. Where entries are equal to themselves, replacing the one by an entry comes to
replacing the other by what that is in the mode of the set exactly if the set replaces both alike;
by an entry that cannot take that mode, exactly if both are in the set or neither is. An info and
what it is in the mode of a set of infos are told apart exactly by an info of the same token under a
case variant of its name, which only a sensitive set has beside it. -/
theorem change_eq_change_iff (settings : Settings) (s : ItemSet) (x x' y y' : Item) :
    (s.change settings .delete [.item x] = s.change settings .delete [.item x'] ↔
      s.set.ComparesAlike x x') ∧
    (s.change settings .deleteAll [.list [.item x]] =
        s.change settings .deleteAll [.list [.item x']] ↔ s.set.ComparesAlike x x') ∧
    (s.set.ComparesAlike x x' → s.mode.fold x.name.value = s.mode.fold x'.name.value →
      s.contains (.item x) = s.contains (.item x') ∧
      (y.withMode settings s.mode = y'.withMode settings s.mode →
        s.change settings .replace [.item x, .item y] =
          s.change settings .replace [.item x', .item y'])) ∧
    (y.withMode settings s.mode = .ok y' → (∀ e ∈ s.entries ++ [y'], e.same e = true) →
      (s.change settings .replace [.item x, .item y] =
          s.change settings .replace [.item x', .item y'] ↔ s.set.ReplacesAlike y' x x')) ∧
    (∀ r, y.withMode settings s.mode = .error r →
      (s.change settings .replace [.item x, .item y] =
          s.change settings .replace [.item x', .item y] ↔
        s.contains (.item x) = s.contains (.item x'))) ∧
    (x.withMode settings s.mode = x'.withMode settings s.mode →
      s.change settings .concat [.item x] = s.change settings .concat [.item x']) ∧
    (x.withMode settings s.mode = .ok x' →
      (s.change settings .concatOrReplace [.item x] =
          s.change settings .concatOrReplace [.item x'] ↔
        ∀ e ∈ s.entries, e.name.same x.name = true →
          s.mode.fold e.name.value = s.mode.fold x.name.value)) ∧
    (∀ i, x = .info i → x.withMode settings s.mode = .ok x' →
      (∀ e ∈ s.entries, ∃ j, e = .info j) →
      s.contains (.item x) = s.contains (.item x') ∧
      (s.set.ComparesAlike x x' ↔ ∀ e ∈ s.entries, e.same x = true →
        s.mode.fold e.name.value = s.mode.fold x.name.value) ∧
      (s.mode = .insensitive ∨ i.name.mode = s.mode → s.set.ComparesAlike x x')) := by
  refine ⟨ofChange_inj.trans NamedSet.delete_eq_delete_iff,
    ofChange_inj.trans NamedSet.deleteAll_eq_deleteAll_iff, fun h hname => ?_,
    fun hy hself => replace_eq_replace_iff.trans (NamedSet.replace_eq_replace_iff hy hself),
    fun r hy => replace_eq_replace_iff.trans (NamedSet.replace_eq_replace_iff_of_error hy),
    fun h => ?_, fun hx => ?_, ?_⟩
  · exact ⟨NamedSet.contains_congr h hname, fun hy =>
      replace_eq_replace_iff.2 (NamedSet.replace_congr h hname hy)⟩
  · exact ofChange_inj.2 (NamedSet.concat_congr h)
  · refine (ofChange_inj.trans (NamedSet.concatOrReplace_eq_iff hx)).trans ?_
    refine forall₂_congr fun e he => ?_
    have hkey : Entry.key e = s.mode.fold e.name.value :=
      congrArg (fun m => CaseMode.fold m e.name.value) (s.set.mode_of_mem e he)
    rw [hkey]
    rfl
  · rintro i rfl hx hs
    have hiff := comparesAlike_info_iff hs hx
    exact ⟨contains_info hs hx, hiff, fun hmode => hiff.2 fun e he => fold_of_same hmode he⟩

/-! ## A case variant -/

def absInfo (text : String) (h : isName text.toList = true) (mode : CaseMode) : Info where
  name := { value := text, mode, isName_value := h }
  token := "u"
  isToken_token := by decide

def lowerAbs : Info :=
  absInfo "abs" (Eq.refl true) .sensitive

def upperAbs (mode : CaseMode) : Info :=
  absInfo "ABS" (by decide) mode

/-- The catalog of a single info of the sensitive mode. -/
def onlyAbs : ItemSet where
  kind := .infos
  set := {
    mode := .sensitive
    entries := [.info lowerAbs]
    mode_of_mem := fun e he => by
      rw [List.mem_singleton.1 he]
      rfl
    ascending := List.pairwise_singleton _ _ }

/-- `abs` is not `ABS` in a sensitive set, yet a deletion of `ABS` drops it if that ignores case. -/
theorem variant_is_dropped :
    of {} .infos .sensitive [.info lowerAbs] = .ok onlyAbs ∧
      (Item.info (upperAbs .insensitive)).withMode {} .sensitive =
        .ok (.info (upperAbs .sensitive)) ∧
      onlyAbs.contains (.item (.info (upperAbs .insensitive))) = false ∧
      onlyAbs.change {} .delete [.item (.info (upperAbs .insensitive))] =
        .ok (empty .infos .sensitive) ∧
      onlyAbs.change {} .delete [.item (.info (upperAbs .sensitive))] = .ok onlyAbs := by
  have hdropped : onlyAbs.entries.filter
      (fun e => !Entry.same e (.info (upperAbs .insensitive))) = [] := by
    have hsame : Entry.same (Item.info lowerAbs) (.info (upperAbs .insensitive)) = true := by
      decide +kernel
    exact List.filter_cons_of_neg (by rw [hsame]; decide)
  have hkept : onlyAbs.entries.filter
      (fun e => !Entry.same e (.info (upperAbs .sensitive))) = onlyAbs.entries := by
    have hdiffer : Entry.same (Item.info lowerAbs) (.info (upperAbs .sensitive)) = false := by
      decide +kernel
    exact List.filter_cons_of_pos (by rw [hdiffer]; rfl)
  have hself : onlyAbs.set.same onlyAbs.set = true := by decide +kernel
  refine ⟨rfl, rfl, by decide +kernel, ?_, ?_⟩
  · show onlyAbs.ofChange (onlyAbs.set.update {} (onlyAbs.entries.filter _)) = _
    rw [hdropped]
    rfl
  · show onlyAbs.ofChange (onlyAbs.set.update {} (onlyAbs.entries.filter _)) = _
    rw [hkept]
    show onlyAbs.ofChange (.ok (if onlyAbs.set.same onlyAbs.set then onlyAbs.set
      else onlyAbs.set)) = _
    rw [if_pos hself]
    rfl

/-- The catalog of `abs` has neither of them, so that neither is replaced, but does not compare with
them alike. -/
theorem change_eq_change_iff_upperAbs :
    onlyAbs.contains (.item (.info (upperAbs .insensitive))) =
        onlyAbs.contains (.item (.info (upperAbs .sensitive))) ∧
      onlyAbs.change {} .replace
          [.item (.info (upperAbs .insensitive)), .item (.info (upperAbs .insensitive))] =
        onlyAbs.change {} .replace
          [.item (.info (upperAbs .sensitive)), .item (.info (upperAbs .sensitive))] ∧
      ¬ onlyAbs.set.ComparesAlike (.info (upperAbs .insensitive))
        (.info (upperAbs .sensitive)) := by
  obtain ⟨-, -, -, hreplace, -, -, -, hinfo⟩ := change_eq_change_iff {} onlyAbs
    (.info (upperAbs .insensitive)) (.info (upperAbs .sensitive))
    (.info (upperAbs .insensitive)) (.info (upperAbs .sensitive))
  obtain ⟨hcontains, hiff, -⟩ := hinfo _ rfl rfl fun e he => ⟨_, List.mem_singleton.1 he⟩
  have hself : ∀ e ∈ onlyAbs.entries ++ [.info (upperAbs .sensitive)], e.same e = true := by
    decide +kernel
  have habsent : onlyAbs.contains (.item (.info (upperAbs .sensitive))) = false := by
    decide +kernel
  have hsame : (Item.info lowerAbs).same (.info (upperAbs .insensitive)) = true := by
    decide +kernel
  have hfold : ¬ onlyAbs.mode.fold lowerAbs.name.value =
      onlyAbs.mode.fold (upperAbs .insensitive).name.value := by
    decide
  exact ⟨hcontains,
    (hreplace rfl hself).2 (.inl ⟨.inl (hcontains.trans habsent), .inl habsent⟩),
    fun h => hfold (hiff.1 h _ (List.mem_singleton_self _) hsame)⟩

end ItemSet

end FunctionCatalog
