import FunctionCatalog.Proofs.Aggregate.MemberOrder

/-
  FunctionCatalog: what an aggregate gathers.
  Members that answer alike at any time make an aggregate exactly if they are `Ready`, and the
  aggregate `Gathers` their answers: it advertises what they do and answers alike at any time
  itself, so it can be a member of another one.
-/

namespace FunctionCatalog

open scoped List

variable {σ : Type}

/-! ## Outcomes that do not depend on the time -/

/-- An equivalence of outcomes that tells answers from failures. -/
structure Discerning (R : Except Failure Value → Except Failure Value → Prop) : Prop where
  equivalence : Equivalence R
  isOk_eq : ∀ {x y}, R x y → x.isOk = y.isOk

/-- What a provider answers for a name depends on the call and on the settings alone. -/
def Provider.Steady (R : Except Failure Value → Except Failure Value → Prop) (p : Provider σ) :
    Prop :=
  ∀ (n : Name) (vs : List Value) (context : Value) (settings : Settings) (m m' : Memory σ),
    R (p.resolveName (.ofName n vs context) settings m).1
      (p.resolveName (.ofName n vs context) settings m').1

/-- What a catalog says of a function: its name as it is written, and its token. -/
def Info.raw (i : Info) : String × String :=
  (i.name.value, i.token)

/-- A provider advertises just these names and tokens, in its mode. -/
def Provider.Lists (p : Provider σ) (raws : List (String × String)) : Prop :=
  p.infos.kind = .infos ∧ p.infos.mode = p.mode ∧
    ∃ held : List Info, p.infos.entries = held.map .info ∧ held.map Info.raw = raws

theorem Info.raw_inMode (mode : CaseMode) (i : Info) : (i.inMode mode).raw = i.raw := by
  obtain ⟨hvalue, -, htoken⟩ := i.inMode_eq mode
  rw [raw, hvalue, htoken]
  rfl

namespace ItemSet

variable {s t : ItemSet} {mode : CaseMode} {infos infos' : List Info}

/-- A set of infos is a catalog. -/
theorem Holds.exists_asItems (h : s.Holds mode infos) :
    ∃ catalog : InfoSet, s = catalog.asItems ∧ catalog.mode = mode ∧
      catalog.entries ~ infos.map (Info.inMode mode) := by
  obtain ⟨hkind, hmode, held, hentries, hperm⟩ := h
  obtain ⟨catalog, rfl, rfl⟩ := ItemSet.exists_asItems hkind hentries
  exact ⟨catalog, rfl, hmode, hperm⟩

end ItemSet

/-- Catalogs of one mode with the same names and tokens list them in one order. -/
theorem InfoSet.map_raw_of_perm {s t : InfoSet} (hmode : s.mode = t.mode)
    (h : s.entries.map Info.raw ~ t.entries.map Info.raw) :
    s.entries.map Info.raw = t.entries.map Info.raw := by
  have hsorted : ∀ u : InfoSet, (u.entries.map Info.raw).Pairwise
      (fun a b => u.mode.fold a.1 < u.mode.fold b.1) := by
    intro u
    refine List.pairwise_map.2 (u.ascending.imp_of_mem fun {i j} hi hj hlt => ?_)
    have hi' : i.name.mode = u.mode := u.mode_of_mem i hi
    have hj' : j.name.mode = u.mode := u.mode_of_mem j hj
    have hkeys : i.name.mode.fold i.name.value < j.name.mode.fold j.name.value := hlt
    rwa [hi', hj'] at hkeys
  have ht := hsorted t
  rw [← hmode] at ht
  refine List.Perm.eq_of_pairwise (fun a b _ _ hab hba => ?_) (hsorted s) ht h
  exact absurd (String.lt_trans hab hba) (String.lt_irrefl _)


namespace Aggregate

variable {R : Except Failure Value → Except Failure Value → Prop} {settings : Settings}
  {context : Value} {members ps qs : List (Advertiser σ)} {mode : CaseMode} {m m' : Memory σ}
  {a : Aggregate σ} {xs : List (Offer σ × Value)}

/-! ## When an aggregate is made -/

/-- Nothing collides exactly where no folded name occurs twice. -/
theorem not_collides_iff (hids : (members.map (·.id)).Nodup) (mode : CaseMode) :
    (¬ ∃ k, Collides mode members k) ↔ ((offers members).map (Offer.key mode)).Nodup := by
  refine ⟨nodup_keys_of_not_collides hids, ?_⟩
  rintro hnodup ⟨k, o, ho, p, hp, hdiffer, hko, hkp⟩
  obtain rfl := List.inj_on_of_nodup_map hnodup ho hp (hko.trans hkp.symm)
  rcases hdiffer with hne | hne <;> exact hne rfl

/-- The members can be united: no folded name is advertised twice, each offer is answered, and each
name can be brought into the joint mode. -/
structure Ready (settings : Settings) (context : Value) (members : List (Advertiser σ)) : Prop where
  nodup : ((offers members).map (Offer.key (jointMode members))).Nodup
  answered : ∀ o ∈ offers members, ∀ m, (o.resolve context settings m).1.isOk = true
  canTake : ∀ o ∈ offers members, o.2.name.CanTake settings (jointMode members)

/-- The aggregate unites what its members answered. -/
structure Gathers (settings : Settings) (context : Value) (members : List (Advertiser σ))
    (a : Aggregate σ) (xs : List (Offer σ × Value)) : Prop where
  offers_eq : xs.map (·.1) = offers members
  unites : a.Unites (jointMode members) xs
  answered : ∀ x ∈ xs, ∃ m, (x.1.resolve context settings m).1 = .ok x.2

theorem ready_of_make (hR : Discerning R) (hsteady : ∀ x ∈ members, x.provider.Steady R)
    (hne : members ≠ []) (hids : (members.map (·.id)).Nodup)
    (h : make (members.map (·.toMember)) context settings m = (.ok a, m')) :
    Ready settings context members ∧ ∃ xs, Gathers settings context members a xs := by
  by_cases hcollides : ∃ k, Collides (jointMode members) members k
  · have hreport := mt (reportOf_eq_nil_iff hids).1 (not_not.2 hcollides)
    rw [make_of_report settings context hne hids hreport] at h
    cases h
  · obtain ⟨xs, failure, m₁, hxs, htakes, hmake⟩ :=
      exists_make_of_unique settings context hne hids hcollides m
    cases failure with
    | some e =>
      dsimp only at hmake
      rw [hmake] at h
      cases h
    | none =>
      obtain ⟨r, hr, hcompletes⟩ := hmake
      rw [hr] at h
      obtain ⟨rfl, rfl⟩ := Prod.mk.inj h
      have hanswered : ∀ x ∈ xs, ∃ m, (x.1.resolve context settings m).1 = .ok x.2 := by
        intro x hx
        obtain ⟨m₂, m₃, hask⟩ := htakes.exists_answered x hx
        exact ⟨m₂, congrArg Prod.fst hask⟩
      have hoffer : ∀ o ∈ offers members, ∃ x ∈ xs, x.1 = o := fun o ho =>
        List.mem_map.1 (hxs ▸ ho)
      refine ⟨⟨(not_collides_iff hids _).1 hcollides, fun o ho m₂ => ?_, fun o ho => ?_⟩, xs, hxs,
        hcompletes.unites a rfl, hanswered⟩
      · obtain ⟨x, hx, rfl⟩ := hoffer o ho
        obtain ⟨m₃, hm₃⟩ := hanswered x hx
        have hone := hsteady x.1.1 (mem_offers.1 ho).1 x.1.2.name [] context settings m₂ m₃
        rw [Offer.resolve, hR.isOk_eq hone]
        exact congrArg Except.isOk hm₃
      · obtain ⟨x, hx, rfl⟩ := hoffer o ho
        exact hcompletes.isOk_iff.1 ⟨a, rfl⟩ x hx

theorem exists_make_of_ready (hne : members ≠ []) (hids : (members.map (·.id)).Nodup)
    (h : Ready settings context members) (m : Memory σ) :
    ∃ a m', make (members.map (·.toMember)) context settings m = (.ok a, m') := by
  obtain ⟨xs, failure, m₁, hxs, htakes, hmake⟩ := exists_make_of_unique settings context hne hids
    ((not_collides_iff hids _).2 h.nodup) m
  cases failure with
  | some e =>
    obtain ⟨x, hx, m₂, hask⟩ := htakes.exists_failed
    have hok := h.answered x.1 (hxs ▸ List.mem_map_of_mem hx) m₂
    rw [hask] at hok
    cases hok
  | none =>
    obtain ⟨r, hr, hcompletes⟩ := hmake
    obtain ⟨a, rfl⟩ := hcompletes.isOk_iff.2 fun x hx => h.canTake x.1 (hxs ▸ List.mem_map_of_mem hx)
    exact ⟨a, m₁, hr⟩

/-! ## What an aggregate answers -/

theorem Gathers.exists_answer (h : Gathers settings context members a xs) {o : Offer σ}
    (ho : o ∈ offers members) : ∃ v, (o, v) ∈ xs := by
  rw [← h.offers_eq] at ho
  obtain ⟨⟨o', v⟩, hx, rfl⟩ := List.mem_map.1 ho
  exact ⟨v, hx⟩

/-- Any two answers to an offer are alike. -/
theorem alike_of_answered {o : Offer σ} (ho : o.1.provider.Steady R)
    {v w : Value} (hv : ∃ m, (o.resolve context settings m).1 = .ok v)
    (hw : ∃ m, (o.resolve context settings m).1 = .ok w) : R (.ok v) (.ok w) := by
  obtain ⟨m, hv⟩ := hv
  obtain ⟨m', hw⟩ := hw
  rw [← hv, ← hw]
  exact ho o.2.name [] context settings m m'

/-- Where the members answer alike at any time, so does their aggregate. -/
theorem Gathers.steady (hR : Discerning R) (h : Gathers settings context members a xs)
    (hsteady : ∀ x ∈ members, x.provider.Steady R) : a.provider.Steady R := by
  intro n vs context' settings' m m'
  show R (a.resolveName _ settings' m).1 (a.resolveName _ settings' m').1
  by_cases hknown : ∃ x ∈ xs, x.1.key (jointMode members) = (jointMode members).fold n.value
  · obtain ⟨x, hx, hkey⟩ := hknown
    have hoffer : x.1 ∈ offers members := h.offers_eq ▸ List.mem_map_of_mem hx
    cases vs with
    | nil =>
      rw [h.unites.found x hx n context' hkey.symm]
      exact hR.equivalence.refl _
    | cons v vs =>
      rw [h.unites.owner x hx n v vs context' hkey.symm]
      exact hsteady x.1.1 (mem_offers.1 hoffer).1 _ _ _ _ _ _
  · rw [h.unites.unknown n vs context' fun x hx hkey => hknown ⟨x, hx, hkey⟩]
    exact hR.equivalence.refl _

/-- An aggregate of infos advertises them in its mode, and can be a member itself. -/
theorem Gathers.exists_advertiser (h : Gathers settings context members a xs) (id : Nat) :
    ∃ x : Advertiser σ, x.toMember = ⟨id, a.provider⟩ ∧ x.catalog.mode = jointMode members ∧
      x.catalog.entries ~ (offers members).map (fun o => o.2.inMode (jointMode members)) := by
  obtain ⟨catalog, hcatalog, hmode, hperm⟩ := h.unites.infos.exists_asItems
  rw [List.map_map] at hperm
  refine ⟨⟨⟨id, a.provider⟩, catalog, hcatalog, hmode.trans h.unites.mode_eq.symm⟩, rfl, hmode, ?_⟩
  rw [← h.offers_eq, List.map_map]
  exact hperm

theorem lists_advertiser (x : Advertiser σ) :
    x.provider.Lists (x.catalog.entries.map Info.raw) := by
  refine ⟨?_, ?_, x.catalog.entries, ?_, rfl⟩
  · rw [x.infos_eq]
    rfl
  · rw [x.infos_eq, ← x.mode_eq]
    rfl
  · rw [x.infos_eq]
    rfl

/-- An aggregate advertises what its members do. -/
theorem Gathers.exists_catalog {a : Aggregate σ} {xs : List (Offer σ × Value)}
    (h : Gathers settings context members a xs) :
    ∃ catalog : InfoSet, catalog.mode = jointMode members ∧
      a.provider.Lists (catalog.entries.map Info.raw) ∧
      catalog.entries.map Info.raw ~ (offers members).map (fun o => o.2.raw) := by
  obtain ⟨x, hx, hmode, hperm⟩ := h.exists_advertiser 0
  have hprovider : x.provider = a.provider := congrArg Member.provider hx
  have hraws := hperm.map Info.raw
  have hsame : Info.raw ∘ (fun o : Offer σ => o.2.inMode (jointMode members)) =
      fun o => o.2.raw := by
    funext o
    exact o.2.raw_inMode (jointMode members)
  rw [List.map_map, hsame] at hraws
  exact ⟨x.catalog, hmode, hprovider ▸ lists_advertiser x, hraws⟩

end Aggregate

end FunctionCatalog
