import FunctionCatalog.Proofs.ItemSet.FiniteMap
import FunctionCatalog.Proofs.NamedSet.Slices
import FunctionCatalog.Proofs.Value.Order

/-
  FunctionCatalog: slices of sets of infos and of aliases.
  A bound is any value with a folded name: a name, a text, or something that has a name. What is
  below it and what is not are two parts of the set that have no name in common and together are
  the set again, and so are the entries with some names and those without (`slices_partition`).
-/

namespace FunctionCatalog.ItemSet

variable {s t u : ItemSet} {p q : Item → Bool} {x y : Value} {k low high : String}

/-! ## Parts -/

/-- A set of the kind and mode of `s` with those of its entries that satisfy `p`. -/
structure IsPart (s : ItemSet) (p : Item → Bool) (t : ItemSet) : Prop where
  kind : t.kind = s.kind
  mode : t.mode = s.mode
  entries : t.entries = s.entries.filter p

/-- Two sets of a kind and a mode with the same entries, which are therefore equal. -/
structure Coincides (s t : ItemSet) : Prop where
  kind : t.kind = s.kind
  mode : t.mode = s.mode
  entries : t.entries = s.entries
  equal : t.value.equal s.value = true

/-- Two parts have no name in common, and one takes in the other to be the set. -/
structure Splits (settings : Settings) (s t u : ItemSet) : Prop where
  disjoint : ∀ d ∈ t.entries, ∀ e ∈ u.entries, d.name.same e.name = false
  union : ∃ v, t.change settings .concatAll [u.value] = .ok v ∧ s.Coincides v

/-- A bound cuts a set where its entries stop to be below it, be that by their folded names or in
the order of names. -/
structure CutAt (s : ItemSet) (k : String) (head tail : ItemSet) : Prop where
  append : head.entries ++ tail.entries = s.entries
  below : ∀ e ∈ head.entries, s.mode.fold e.name.value < k
  notBelow : ∀ e ∈ tail.entries, ¬ s.mode.fold e.name.value < k
  before : ∀ n : Name, n.mode = s.mode → n.key = k →
    (∀ e ∈ head.entries, e.name.before n = true) ∧ ∀ e ∈ tail.entries, e.name.before n = false

theorem IsPart.trans (ht : s.IsPart p t) (hu : t.IsPart q u) :
    s.IsPart (fun e => p e && q e) u where
  kind := hu.kind.trans ht.kind
  mode := hu.mode.trans ht.mode
  entries := by
    rw [hu.entries, ht.entries, List.filter_filter]
    exact List.filter_congr fun e _ => Bool.and_comm _ _

theorem IsPart.admits (hs : ∀ e ∈ s.entries, s.kind.Admits e) (ht : s.IsPart p t) :
    ∀ e ∈ t.entries, t.kind.Admits e := by
  intro e he
  rw [ht.entries] at he
  rw [ht.kind]
  exact hs e (List.mem_filter.1 he).1

theorem equal_value_iff : t.value.equal s.value = true ↔
    t.kind = s.kind ∧ t.mode = s.mode ∧ Item.allSame t.entries s.entries = true := by
  simp only [value, Value.equal, Value.same, Bool.and_eq_true, beq_iff_eq, and_assoc]
  exact Iff.rfl

section Parts

variable (settings : Settings) (hs : ∀ e ∈ s.entries, s.kind.Admits e)

include hs

theorem allKeys_entries : Item.allKeys s.entries = true := by
  have hall : ∀ {es : List Item}, (∀ e ∈ es, s.kind.Admits e) → Item.allKeys es = true := by
    intro es
    induction es with
    | nil => exact fun _ => rfl
    | cons e es ih =>
      intro hes
      rw [Item.allKeys, (hes e List.mem_cons_self).isKey,
        ih fun f hf => hes f (List.mem_cons_of_mem e hf), Bool.and_self]
  exact hall hs

theorem coincides_of_entries (hkind : t.kind = s.kind) (hmode : t.mode = s.mode)
    (hentries : t.entries = s.entries) : s.Coincides t := by
  refine ⟨hkind, hmode, hentries, equal_value_iff.2 ⟨hkind, hmode, ?_⟩⟩
  rw [hentries]
  exact Item.allSame_refl (allKeys_entries hs)

theorem exists_part (p : Item → Bool) :
    ∃ t, s.ofChange (s.set.keepIf settings p) = .ok t ∧ s.IsPart p t := by
  obtain ⟨t, ht, hst⟩ := NamedSet.exists_keepIf_becomes settings p fun e he => same_entry hs he
  refine ⟨{ s with set := t }, ?_, rfl, hst.mode, hst.entries⟩
  rw [ht]
  rfl

/-- The entries that satisfy `p` and the others have no name in common, and make the set. -/
theorem IsPart.splits (ht : s.IsPart p t) (hu : s.IsPart (fun e => !p e) u) :
    s.Splits settings t u where
  disjoint d hd e he := by
    rw [ht.entries] at hd
    rw [hu.entries] at he
    obtain ⟨hd, hpd⟩ := List.mem_filter.1 hd
    obtain ⟨he, hpe⟩ := List.mem_filter.1 he
    have hmode : d.name.mode = e.name.mode :=
      (s.set.mode_of_mem d hd).trans (s.set.mode_of_mem e he).symm
    rw [← Bool.not_eq_true, Name.same_iff_key hmode]
    intro hkey
    obtain rfl := s.set.ascending.eq_of_key hd he hkey
    rw [hpd] at hpe
    cases hpe
  union := by
    obtain ⟨v, hv, hmode, hentries⟩ := NamedSet.exists_concatAll_parts settings
      (fun e he => same_entry hs he) ht.mode ht.entries hu.entries
    refine ⟨{ t with set := v }, ?_, coincides_of_entries hs ht.kind hmode hentries⟩
    show t.concatAll settings (u.entries.map .item) = _
    rw [concatAll_items, show t.set.concatAll settings u.entries = .ok v from hv]
    rfl

/-! ## Slices -/

theorem exists_headSet (hx : LookupKey.ofValue s.mode x = .ok (.name k)) :
    ∃ t, s.headSet settings x = .ok t ∧ s.IsPart (fun e => s.mode.fold e.name.value < k) t := by
  obtain ⟨t, ht, hkind, hmode, hentries⟩ := exists_part settings hs (fun e => Entry.key e < k)
  refine ⟨t, ?_, hkind, hmode, hentries.trans (List.filter_congr fun e he => by rw [key_of_mem he])⟩
  rw [headSet, hx]
  exact ht

theorem exists_tailSet (hx : LookupKey.ofValue s.mode x = .ok (.name k)) :
    ∃ t, s.tailSet settings x = .ok t ∧ s.IsPart (fun e => !(s.mode.fold e.name.value < k)) t := by
  obtain ⟨t, ht, hkind, hmode, hentries⟩ := exists_part settings hs (fun e => k ≤ Entry.key e)
  refine ⟨t, ?_, hkind, hmode, hentries.trans (List.filter_congr fun e he => ?_)⟩
  · rw [tailSet, hx]
    exact ht
  · rw [key_of_mem he, ← decide_not, decide_eq_decide]
    exact String.not_lt.symm

theorem exists_subSet (hx : LookupKey.ofValue s.mode x = .ok (.name low))
    (hy : LookupKey.ofValue s.mode y = .ok (.name high)) :
    ∃ t, s.subSet settings x y = .ok t ∧ t.entries <:+: s.entries ∧
      s.IsPart (fun e => !(s.mode.fold e.name.value < low) && s.mode.fold e.name.value < high)
        t := by
  obtain ⟨t, ht, hkind, hmode, hentries⟩ :=
    exists_part settings hs (fun e => low ≤ Entry.key e && Entry.key e < high)
  refine ⟨t, ?_, ?_, hkind, hmode, hentries.trans (List.filter_congr fun e he => ?_)⟩
  · rw [subSet, hx, hy]
    exact ht
  · rw [hentries]
    exact s.set.ascending.isInfix_filter low high
  · rw [key_of_mem he, ← decide_not]
    exact congrArg (· && _) (decide_eq_decide.2 String.not_lt.symm)

omit hs in
theorem IsPart.cutAt (ht : s.IsPart (fun e => s.mode.fold e.name.value < k) t)
    (hu : s.IsPart (fun e => !(s.mode.fold e.name.value < k)) u) : s.CutAt k t u := by
  have hbelow : ∀ e ∈ t.entries, e ∈ s.entries ∧ s.mode.fold e.name.value < k := fun e he => by
    rw [ht.entries] at he
    exact (List.mem_filter.1 he).imp_right of_decide_eq_true
  have hnotBelow : ∀ e ∈ u.entries, e ∈ s.entries ∧ ¬ s.mode.fold e.name.value < k :=
    fun e he => by
      rw [hu.entries] at he
      refine (List.mem_filter.1 he).imp_right fun h => ?_
      rwa [Bool.not_eq_true', decide_eq_false_iff_not] at h
  have hbefore : ∀ n : Name, n.mode = s.mode → n.key = k → ∀ e ∈ s.entries,
      (e.name.before n = true ↔ s.mode.fold e.name.value < k) := by
    rintro n hn rfl e he
    have hkey : e.name.key = s.mode.fold e.name.value := key_of_mem he
    have hmode : e.name.mode = n.mode := (s.set.mode_of_mem e he).trans hn.symm
    rw [Name.before_iff_key hmode, hkey]
  refine ⟨?_, fun e he => (hbelow e he).2, fun e he => (hnotBelow e he).2,
    fun n hn hk => ⟨fun e he => ?_, fun e he => ?_⟩⟩
  · have hcut := s.set.ascending.filter_append k
    rw [ht.entries, hu.entries]
    refine Eq.trans ?_ hcut
    congr 1 <;> refine List.filter_congr fun e he => ?_
    · rw [key_of_mem he]
    · rw [key_of_mem he, ← decide_not, decide_eq_decide]
      exact String.not_lt
  · exact (hbefore n hn hk e (hbelow e he).1).2 (hbelow e he).2
  · rw [← Bool.not_eq_true, hbefore n hn hk e (hnotBelow e he).1]
    exact (hnotBelow e he).2

/-- What lies between two bounds is what is below the upper one of what is not below the lower one,
and the other way around. -/
theorem exists_between (hx : LookupKey.ofValue s.mode x = .ok (.name low))
    (hy : LookupKey.ofValue s.mode y = .ok (.name high)) :
    ∃ t u v, s.subSet settings x y = .ok t ∧ t.entries <:+: s.entries ∧
      (do (← s.tailSet settings x).headSet settings y) = .ok u ∧
      (do (← s.headSet settings y).tailSet settings x) = .ok v ∧
      t.Coincides u ∧ u.Coincides v := by
  obtain ⟨t, ht, hrun, hpart⟩ := exists_subSet settings hs hx hy
  obtain ⟨upper, hupper, hupperPart⟩ := exists_tailSet settings hs hx
  obtain ⟨lower, hlower, hlowerPart⟩ := exists_headSet settings hs hy
  obtain ⟨u, hu, huPart⟩ := exists_headSet (k := high) settings (hupperPart.admits hs)
    (by rw [hupperPart.mode]; exact hy)
  obtain ⟨v, hv, hvPart⟩ := exists_tailSet (k := low) settings (hlowerPart.admits hs)
    (by rw [hlowerPart.mode]; exact hx)
  have hboth := hupperPart.trans huPart
  have hother := hlowerPart.trans hvPart
  have htu : u.entries = t.entries := by
    rw [hboth.entries, hpart.entries, hupperPart.mode]
  have huv : v.entries = u.entries := by
    rw [hother.entries, hboth.entries, hupperPart.mode, hlowerPart.mode]
    exact List.filter_congr fun e _ => Bool.and_comm _ _
  refine ⟨t, u, v, ht, hrun, ?_, ?_, ?_, ?_⟩
  · rw [hupper]
    exact hu
  · rw [hlower]
    exact hv
  · exact coincides_of_entries (hpart.admits hs) (hboth.kind.trans hpart.kind.symm)
      (hboth.mode.trans hpart.mode.symm) htu
  · exact coincides_of_entries (hboth.admits hs) (hother.kind.trans hboth.kind.symm)
      (hother.mode.trans hboth.mode.symm) huv

/-! ## Entries with some names -/

theorem exists_keepNames {vs : List Value} {names : List String}
    (hnames : vs.mapM (LookupKey.ofValue s.mode) = .ok (names.map .name)) :
    ∃ t, s.keepNames settings vs = .ok t ∧
      s.IsPart (fun e => names.contains (s.mode.fold e.name.value)) t := by
  obtain ⟨t, ht, hkind, hmode, hentries⟩ :=
    exists_part settings hs (fun e => !!names.contains (Entry.key e))
  refine ⟨t, ?_, hkind, hmode, hentries.trans (List.filter_congr fun e he => ?_)⟩
  · rw [keepNames, namesOf_eq hnames]
    exact ht
  · rw [key_of_mem he, Bool.not_not]

end Parts

/-- A bound cuts a set of infos or of aliases into what is below it and what is not, in this order:
these have no name in common, and one takes in the other to be the set. What lies between two bounds
is a run of entries, and it makes no difference which bound comes first. The entries with some names
and those without have no name in common and make the set, too. -/
theorem slices_partition (settings : Settings) (s : ItemSet)
    (hs : ∀ e ∈ s.entries, s.kind.Admits e) :
    (∀ x k, LookupKey.ofValue s.mode x = .ok (.name k) → ∃ head tail,
      s.change settings .headSet [x] = .ok head ∧ s.change settings .tailSet [x] = .ok tail ∧
        s.CutAt k head tail ∧ s.Splits settings head tail) ∧
    (∀ x y low high, LookupKey.ofValue s.mode x = .ok (.name low) →
      LookupKey.ofValue s.mode y = .ok (.name high) → ∃ t u v,
        s.change settings .subSet [x, y] = .ok t ∧ t.entries <:+: s.entries ∧
        (do (← s.change settings .tailSet [x]).change settings .headSet [y]) = .ok u ∧
        (do (← s.change settings .headSet [y]).change settings .tailSet [x]) = .ok v ∧
        t.Coincides u ∧ u.Coincides v) ∧
    ∀ (vs : List Value) (names : List String),
      vs.mapM (LookupKey.ofValue s.mode) = .ok (names.map .name) → ∃ kept rest,
        s.change settings .keepNames [.list vs] = .ok kept ∧
        s.change settings .deleteNames [.list vs] = .ok rest ∧
        (∀ e, e ∈ kept.entries ↔ e ∈ s.entries ∧ s.mode.fold e.name.value ∈ names) ∧
        s.Splits settings kept rest := by
  refine ⟨fun x k hx => ?_, fun x y low high => exists_between settings hs,
    fun vs names hnames => ?_⟩
  · obtain ⟨head, hhead, hheadPart⟩ := exists_headSet settings hs hx
    obtain ⟨tail, htail, htailPart⟩ := exists_tailSet settings hs hx
    exact ⟨head, tail, hhead, htail, hheadPart.cutAt htailPart,
      hheadPart.splits settings hs htailPart⟩
  · obtain ⟨kept, hkept, hkeptPart⟩ := exists_keepNames settings hs hnames
    obtain ⟨rest, hrest, hkind, hmode, hentries⟩ := exists_deleteNames settings hs hnames
    refine ⟨kept, rest, hkept, hrest, fun e => ?_,
      hkeptPart.splits settings hs ⟨hkind, hmode, hentries⟩⟩
    rw [hkeptPart.entries, List.mem_filter, List.contains_iff_mem]

/-- The forwarded names `a` and `B` of a set that ignores case. -/
def forwardedAB : ItemSet where
  kind := .aliases
  set := {
    mode := .insensitive
    entries := [.alias (.passThrough (shortName "a" .insensitive (Eq.refl true))),
      .alias (.passThrough (shortName "B" .insensitive (Eq.refl true)))]
    mode_of_mem := fun e he => by
      simp only [List.mem_cons, List.not_mem_nil, or_false] at he
      rcases he with rfl | rfl <;> rfl
    ascending := List.pairwise_pair.2 (by decide +kernel) }

/-- Cut at `b` it has `a` before the bound and `B` behind, and so it has without and with `b`. -/
theorem slices_partition_forwardedAB :
    (∀ e ∈ forwardedAB.entries, forwardedAB.kind.Admits e) ∧
      (∃ head tail, forwardedAB.change {} .headSet [.text "b"] = .ok head ∧
        forwardedAB.change {} .tailSet [.text "b"] = .ok tail ∧
        forwardedAB.CutAt "b" head tail ∧ forwardedAB.Splits {} head tail ∧
        head.names.map (·.value) = ["a"] ∧ tail.names.map (·.value) = ["B"]) ∧
      ∃ kept rest, forwardedAB.change {} .keepNames [.list [.text "b"]] = .ok kept ∧
        forwardedAB.change {} .deleteNames [.list [.text "b"]] = .ok rest ∧
        forwardedAB.Splits {} kept rest := by
  have hadmits : ∀ e ∈ forwardedAB.entries, forwardedAB.kind.Admits e := by
    intro e he
    simp only [forwardedAB, entries, List.mem_cons, List.not_mem_nil, or_false] at he
    rcases he with rfl | rfl <;> exact ⟨_, rfl⟩
  obtain ⟨hcut, -, hnames⟩ := slices_partition {} forwardedAB hadmits
  obtain ⟨head, tail, hhead, htail, hcutAt, hsplits⟩ := hcut (.text "b") "b" rfl
  obtain ⟨kept, rest, hkept, hrest, -, hsplits'⟩ := hnames [.text "b"] ["b"] rfl
  have hrun : ((forwardedAB.change {} .headSet [.text "b"]).map
      (fun t => t.names.map (·.value))).toOption = some ["a"] := by
    decide +kernel
  have hrun' : ((forwardedAB.change {} .tailSet [.text "b"]).map
      (fun t => t.names.map (·.value))).toOption = some ["B"] := by
    decide +kernel
  rw [hhead] at hrun
  rw [htail] at hrun'
  exact ⟨hadmits, ⟨head, tail, hhead, htail, hcutAt, hsplits, Option.some.inj hrun,
    Option.some.inj hrun'⟩, kept, rest, hkept, hrest, hsplits'⟩

end FunctionCatalog.ItemSet
