import FunctionCatalog.Proofs.Aggregate.Groups

/-
  FunctionCatalog: what members advertise.
  The members here are those whose catalogs hold infos in the mode of their providers. Everything
  that they advertise is grouped by names folded in the mode of the aggregate.
-/

namespace FunctionCatalog

/-- A member with a catalog of infos in the mode of its provider. -/
structure Advertiser (σ : Type) extends Member σ where
  catalog : InfoSet
  infos_eq : provider.infos = catalog.asItems
  mode_eq : catalog.mode = provider.mode

/-- An info that a member advertises. -/
abbrev Offer (σ : Type) := Advertiser σ × Info

namespace Offer

variable {σ : Type}

/-- The name in the form in which a mode compares it. -/
def key (mode : CaseMode) (o : Offer σ) : String :=
  mode.fold o.2.name.value

/-- The entry of the catalog and the provider that has it. -/
def entry (o : Offer σ) : Item × Provider σ :=
  (.info o.2, o.1.provider)

/-- Asks the member for what it advertises, without values. -/
def resolve (context : Value) (o : Offer σ) : Resolution σ Value :=
  o.1.provider.resolveName (.ofName o.2.name [] context)

end Offer

namespace CaseMode

/-- What is folded alike in one mode is folded alike in any mode that includes it. -/
theorem fold_eq_of_join {m mode : CaseMode} {s t : String} (h : m.join mode = mode)
    (hfold : m.fold s = m.fold t) : mode.fold s = mode.fold t := by
  cases mode with
  | sensitive =>
    cases m with
    | sensitive => exact hfold
    | insensitive => cases h
  | insensitive =>
    cases m with
    | sensitive =>
      have hst : s = t := hfold
      rw [hst]
    | insensitive => exact hfold

end CaseMode

/-- Names that are equal are equal in any mode that includes both of theirs. -/
theorem Name.fold_eq_of_same {a b : Name} {mode : CaseMode} (ha : a.mode.join mode = mode)
    (hb : b.mode.join mode = mode) (h : a.same b = true) :
    mode.fold a.value = mode.fold b.value := by
  have hjoin : (a.mode.join b.mode).join mode = mode := by
    cases hmode : a.mode with
    | sensitive =>
      cases hmode' : b.mode with
      | sensitive => rwa [hmode] at ha
      | insensitive => rwa [hmode'] at hb
    | insensitive => rwa [hmode] at ha
  exact CaseMode.fold_eq_of_join hjoin (by simpa [same] using h)

namespace Aggregate

variable {σ : Type}

/-- Everything that is advertised, member by member, each in the order of its catalog. -/
def offers (members : List (Advertiser σ)) : List (Offer σ) :=
  members.flatMap (fun m => m.catalog.entries.map (fun i => (m, i)))

variable {members : List (Advertiser σ)} {mode : CaseMode} {o : Offer σ}

theorem offers_cons (m : Advertiser σ) (members : List (Advertiser σ)) :
    offers (m :: members) = m.catalog.entries.map (fun i => (m, i)) ++ offers members :=
  rfl

theorem mem_offers : o ∈ offers members ↔ o.1 ∈ members ∧ o.2 ∈ o.1.catalog.entries := by
  obtain ⟨m, i⟩ := o
  simp only [offers, List.mem_flatMap, List.mem_map, Prod.mk.injEq]
  constructor
  · rintro ⟨m', hm', i', hi', rfl, rfl⟩
    exact ⟨hm', hi'⟩
  · rintro ⟨hm, hi⟩
    exact ⟨m, hm, i, hi, rfl, rfl⟩

/-- The mode of an aggregate includes that of each member. -/
theorem join_modeOf {m : Member σ} {ms : List (Member σ)} (h : m ∈ ms) :
    m.provider.mode.join (modeOf ms) = modeOf ms := by
  unfold modeOf
  split
  · next hall =>
    have hmode : m.provider.mode = .sensitive := by
      simpa using List.all_eq_true.1 hall m h
    rw [hmode]
    rfl
  · cases m.provider.mode <;> rfl

theorem modeOf_eq_sensitive {ms : List (Member σ)} :
    modeOf ms = .sensitive ↔ ∀ m ∈ ms, m.provider.mode = .sensitive := by
  unfold modeOf
  split
  · next hall => simpa using hall
  · next hall => simpa using hall

/-- Each name that is advertised has the mode of its member. -/
theorem mode_of_mem_offers (h : o ∈ offers members) : o.2.name.mode = o.1.provider.mode :=
  (o.1.catalog.mode_of_mem o.2 (mem_offers.1 h).2).trans o.1.mode_eq

/-- The mode of the aggregate of some members. -/
abbrev jointMode (members : List (Advertiser σ)) : CaseMode :=
  modeOf (members.map (·.toMember))

theorem join_of_mem_offers (h : o ∈ offers members) :
    o.2.name.mode.join (jointMode members) = jointMode members := by
  rw [mode_of_mem_offers h]
  exact join_modeOf (List.mem_map_of_mem (mem_offers.1 h).1)

/-- No two offers are of the same member and of the same info. -/
theorem pairwise_offers (h : (members.map (·.id)).Nodup) :
    (offers members).Pairwise (fun o p => o.1.id ≠ p.1.id ∨ o.2 ≠ p.2) := by
  induction members with
  | nil => exact .nil
  | cons m members ih =>
    obtain ⟨hm, hmembers⟩ := List.nodup_cons.1 h
    rw [offers_cons]
    refine List.pairwise_append.2 ⟨?_, ih hmembers, ?_⟩
    · refine List.pairwise_map.2 (m.catalog.ascending.imp ?_)
      intro i j hlt
      refine .inr ?_
      rintro rfl
      exact String.lt_irrefl _ hlt
    · intro o ho p hp
      obtain ⟨i, -, rfl⟩ := List.mem_map.1 ho
      have hne : p.1.id ≠ m.id := by
        intro heq
        exact hm (List.mem_map.2 ⟨p.1, (mem_offers.1 hp).1, heq⟩)
      exact .inl hne.symm

theorem entries_of_members :
    (members.map (·.toMember)).flatMap
        (fun m => m.provider.infos.entries.map (fun i => (i, m.provider))) =
      (offers members).map Offer.entry := by
  induction members with
  | nil => rfl
  | cons m members ih =>
    have hentries : m.provider.infos.entries = m.catalog.entries.map Item.info := by
      rw [m.infos_eq]
      rfl
    rw [List.map_cons, List.flatMap_cons, ih, hentries, offers_cons, List.map_append, List.map_map,
      List.map_map]
    rfl

/-- The groups of the scan are those of the folded names. -/
theorem owners_eq (mode : CaseMode) (members : List (Advertiser σ)) :
    owners mode (members.map (·.toMember)) =
      ((offers members).map (Offer.key mode)).eraseDups.map (fun k =>
        (k, (groupOf (Offer.key mode) (offers members) k).map Offer.entry)) := by
  unfold owners
  dsimp only
  rw [entries_of_members, foldl_addTo (fun e : Item × Provider σ => mode.fold e.1.name.value),
    List.map_map]
  refine List.map_congr_left fun k _ => ?_
  rw [groupOf, List.filter_map]
  rfl

/-- Where no folded name occurs twice every offer is a group. -/
theorem owners_of_nodup (h : ((offers members).map (Offer.key mode)).Nodup) :
    owners mode (members.map (·.toMember)) =
      (offers members).map (fun o => (o.key mode, [o.entry])) := by
  unfold owners
  dsimp only
  rw [entries_of_members, foldl_addTo_of_nodup, List.map_map]
  · rfl
  · rw [List.map_map]
    exact h

/-! ## Members with two letters -/

/-- The catalog of two infos in order. -/
def pairCatalog (mode : CaseMode) (i j : Info) (hi : i.name.mode = mode) (hj : j.name.mode = mode)
    (hij : i.name.key < j.name.key) : InfoSet where
  mode := mode
  entries := [i, j]
  mode_of_mem := by
    intro e he
    rcases List.mem_cons.1 he with rfl | he
    · exact hi
    · rw [List.mem_singleton.1 he]
      exact hj
  ascending := List.pairwise_pair.2 hij

/-- The info of a short name. -/
def letter (mode : CaseMode) (text token : String) (hname : isName text.toList = true)
    (htoken : isToken infoReserved token.toList = true) : Info where
  name := { value := text, mode, isName_value := hname }
  token := token
  isToken_token := htoken

def upperB : Info :=
  letter .sensitive "B" "u/B" (by decide) (by decide)

def lowerA : Info :=
  letter .sensitive "a" "u/a" (by decide) (by decide)

def foldedA : Info :=
  letter .insensitive "a" "v/a" (by decide) (by decide)

def foldedB : Info :=
  letter .insensitive "b" "v/b" (by decide) (by decide)

/-- Two names whose order as they are written is not that of their folded forms, and the same two
names where they are folded. -/
def letters : CaseMode → InfoSet
  | .sensitive => pairCatalog .sensitive upperB lowerA rfl rfl (by decide)
  | .insensitive => pairCatalog .insensitive foldedA foldedB rfl rfl (by decide)

/-- A member that advertises the letters in its mode and answers any call with its name. -/
def lettered (σ : Type) (p : CaseMode × Nat) : Advertiser σ where
  id := p.2
  provider := .ofNames p.1 (letters p.1).asItems (fun call => pure call.name)
  catalog := letters p.1
  infos_eq := rfl
  mode_eq := by
    obtain ⟨mode, id⟩ := p
    cases mode <;> rfl

end Aggregate

end FunctionCatalog
