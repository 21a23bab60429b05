import FunctionCatalog.Proofs.Aggregate.Gathering

/-
  FunctionCatalog: aggregates within aggregates.
  An aggregate can be a member of another one. Where the members answer alike at any time, it makes
  no difference whether some of them are merged first (`aggregateFirst_alike`): the folded names
  that are advertised are the same either way, so the same members are refused, and a name with
  values reaches the same owner, perhaps through two tables.
-/

namespace FunctionCatalog

open scoped List

variable {σ : Type}

namespace Aggregate

variable {R : Except Failure Value → Except Failure Value → Prop} {settings : Settings}
  {context : Value} {members ps qs : List (Advertiser σ)} {a : Aggregate σ}
  {xs : List (Offer σ × Value)}

/-! ## Modes and offers of more members -/

theorem jointMode_eq_sensitive :
    jointMode members = .sensitive ↔ ∀ x ∈ members, x.provider.mode = .sensitive := by
  rw [modeOf_eq_sensitive, List.forall_mem_map]

/-- The joint mode of more members includes that of fewer. -/
theorem join_jointMode_append (ps qs : List (Advertiser σ)) :
    (jointMode ps).join (jointMode (ps ++ qs)) = jointMode (ps ++ qs) := by
  cases hall : jointMode (ps ++ qs) with
  | insensitive => cases jointMode ps <;> rfl
  | sensitive =>
    rw [jointMode_eq_sensitive, List.forall_mem_append] at hall
    rw [jointMode_eq_sensitive.2 hall.1]
    rfl

theorem offers_append (ps qs : List (Advertiser σ)) : offers (ps ++ qs) = offers ps ++ offers qs :=
  List.flatMap_append

/-! ## Members that are aggregated first -/

section Nested

variable {inner : Advertiser σ}

/-- The advertiser stands for other members: it advertises what they do, in their joint mode. -/
structure StandsFor (inner : Advertiser σ) (ps : List (Advertiser σ)) : Prop where
  mode : inner.provider.mode = jointMode ps
  entries : inner.catalog.entries ~ (offers ps).map (fun o => o.2.inMode (jointMode ps))

theorem StandsFor.jointMode_eq (h : StandsFor inner ps) (qs : List (Advertiser σ)) :
    jointMode (inner :: qs) = jointMode (ps ++ qs) := by
  have hsensitive : jointMode (inner :: qs) = .sensitive ↔ jointMode (ps ++ qs) = .sensitive := by
    rw [jointMode_eq_sensitive, jointMode_eq_sensitive, List.forall_mem_cons, h.mode,
      jointMode_eq_sensitive, List.forall_mem_append]
  cases hinner : jointMode (inner :: qs) <;> cases hall : jointMode (ps ++ qs) <;>
    simp [hinner, hall] at hsensitive
  all_goals rfl

/-- The names and tokens that are advertised are the same. -/
theorem StandsFor.raws_perm (h : StandsFor inner ps) (qs : List (Advertiser σ)) :
    (offers (inner :: qs)).map (fun o => o.2.raw) ~ (offers (ps ++ qs)).map (fun o => o.2.raw) := by
  rw [offers_cons, offers_append, List.map_append, List.map_append]
  refine List.Perm.append_right _ ?_
  have hraws := h.entries.map Info.raw
  rw [List.map_map] at hraws ⊢
  refine hraws.trans (List.Perm.of_eq (List.map_congr_left fun o _ => ?_))
  exact o.2.raw_inMode (jointMode ps)

theorem StandsFor.keys_perm (h : StandsFor inner ps) (qs : List (Advertiser σ)) (mode : CaseMode) :
    (offers (inner :: qs)).map (Offer.key mode) ~ (offers (ps ++ qs)).map (Offer.key mode) := by
  have hkeys := (h.raws_perm qs).map (fun r => mode.fold r.1)
  rwa [List.map_map, List.map_map] at hkeys

theorem StandsFor.mem_offers (h : StandsFor inner ps) {o : Offer σ} (ho : o ∈ offers ps) :
    (inner, o.2.inMode (jointMode ps)) ∈ offers (inner :: qs) := by
  rw [offers_cons]
  refine List.mem_append_left _ (List.mem_map_of_mem (h.entries.mem_iff.2 ?_))
  exact List.mem_map.2 ⟨o, ho, rfl⟩

/-- Names that can be brought into the joint mode of some members, and then into that of all, can be
brought into it at once. -/
theorem canTake_iff {mode₁ mode₂ : CaseMode} {n : Name} (hn : n.mode.join mode₁ = mode₁)
    (hmodes : mode₁.join mode₂ = mode₂) :
    n.CanTake settings mode₂ ↔ n.CanTake settings mode₁ ∧ (mode₁ = mode₂ ∨ n.Fits settings) := by
  unfold Name.CanTake
  constructor
  · rintro (hmode | hfits)
    · rw [hmode] at hn ⊢
      cases mode₁ <;> cases mode₂ <;> simp_all [CaseMode.join]
    · exact ⟨.inr hfits, .inr hfits⟩
  · rintro ⟨hmode | hfits, hmodes' | hfits'⟩
    · exact .inl (hmode.trans hmodes')
    · exact .inr hfits'
    · exact .inr hfits
    · exact .inr hfits

theorem canTake_inMode {mode₁ mode₂ : CaseMode} {i : Info} :
    (i.inMode mode₁).name.CanTake settings mode₂ ↔ mode₁ = mode₂ ∨ i.name.Fits settings := by
  obtain ⟨hvalue, hmode, -⟩ := i.inMode_eq mode₁
  unfold Name.CanTake Name.Fits
  rw [hvalue, hmode]

/-- If all members can be united, so can some of them. -/
theorem Ready.left (h : Ready settings context (ps ++ qs)) : Ready settings context ps := by
  have hoffers : ∀ o ∈ offers ps, o ∈ offers (ps ++ qs) := fun o ho => by
    rw [offers_append]
    exact List.mem_append_left _ ho
  have hmodes := join_jointMode_append ps qs
  refine ⟨?_, fun o ho => h.answered o (hoffers o ho), fun o ho => ?_⟩
  · have hnodup := h.nodup
    rw [offers_append, List.map_append] at hnodup
    refine List.pairwise_map.2 ((List.pairwise_map.1 hnodup.of_append_left).imp ?_)
    exact fun hne hkey => hne (CaseMode.fold_eq_of_join hmodes hkey)
  · exact ((canTake_iff (join_of_mem_offers ho) hmodes).1 (h.canTake o (hoffers o ho))).1

theorem StandsFor.ready_iff (h : StandsFor inner ps) (hready : Ready settings context ps)
    (hanswers : ∀ i ∈ inner.catalog.entries, ∀ m,
      (Offer.resolve context (inner, i) settings m).1.isOk = true) :
    Ready settings context (inner :: qs) ↔ Ready settings context (ps ++ qs) := by
  have hmode := h.jointMode_eq qs
  have hmodes := join_jointMode_append ps qs
  have hcan : (∀ o ∈ offers (inner :: qs), o.2.name.CanTake settings (jointMode (ps ++ qs))) ↔
      ∀ o ∈ offers (ps ++ qs), o.2.name.CanTake settings (jointMode (ps ++ qs)) := by
    rw [offers_cons, offers_append, List.forall_mem_append, List.forall_mem_append,
      List.forall_mem_map]
    refine and_congr_left fun _ => ?_
    simp only [h.entries.mem_iff, List.forall_mem_map]
    refine forall₂_congr fun o ho => ?_
    rw [canTake_inMode, canTake_iff (join_of_mem_offers ho) hmodes]
    exact (and_iff_right (hready.canTake o ho)).symm
  have hanswered : (∀ o ∈ offers (inner :: qs), ∀ m,
      (o.resolve context settings m).1.isOk = true) ↔
      ∀ o ∈ offers (ps ++ qs), ∀ m, (o.resolve context settings m).1.isOk = true := by
    rw [offers_cons, offers_append, List.forall_mem_append, List.forall_mem_append,
      List.forall_mem_map]
    exact and_congr_left fun _ => ⟨fun _ => hready.answered, fun _ => hanswers⟩
  have hnodup := (h.keys_perm qs (jointMode (ps ++ qs))).nodup_iff
  constructor
  · rintro ⟨h₁, h₂, h₃⟩
    rw [hmode] at h₁ h₃
    exact ⟨hnodup.1 h₁, hanswered.1 h₂, hcan.1 h₃⟩
  · rintro ⟨h₁, h₂, h₃⟩
    refine ⟨?_, hanswered.2 h₂, ?_⟩
    · rw [hmode]
      exact hnodup.2 h₁
    · rw [hmode]
      exact hcan.2 h₃

/-- An aggregate with an aggregate among its members answers as the aggregate of all members. -/
theorem alike_of_gathers (hR : Discerning R) (hsteady : ∀ x ∈ ps ++ qs, x.provider.Steady R)
    (h : StandsFor inner ps) {a₁ : Aggregate σ} {xs₁ : List (Offer σ × Value)}
    (hinner : inner.provider = a₁.provider) (h₁ : Gathers settings context ps a₁ xs₁)
    {a₂ : Aggregate σ} {xs₂ : List (Offer σ × Value)}
    (h₂ : Gathers settings context (inner :: qs) a₂ xs₂)
    (h₃ : Gathers settings context (ps ++ qs) a xs) (n : Name) (vs : List Value) (context' : Value)
    (settings' : Settings) (m m' : Memory σ) :
    R (a₂.resolveName (.ofName n vs context') settings' m).1
      (a.resolveName (.ofName n vs context') settings' m').1 := by
  have hunites := h₂.unites
  rw [h.jointMode_eq qs] at hunites
  by_cases hknown : ∃ o ∈ offers (ps ++ qs), (jointMode (ps ++ qs)).fold n.value =
      o.key (jointMode (ps ++ qs))
  · obtain ⟨o, ho, hkey⟩ := hknown
    obtain ⟨v, hv⟩ := h₃.exists_answer ho
    have howner := hsteady o.1 (Aggregate.mem_offers.1 ho).1
    rw [offers_append] at ho
    rcases List.mem_append.1 ho with ho | ho
    · -- The name goes through the table of the inner aggregate to the same owner.
      obtain ⟨w, hw⟩ := h₂.exists_answer (h.mem_offers ho)
      obtain ⟨u, hu⟩ := h₁.exists_answer ho
      have hvalue := (o.2.inMode_eq (jointMode ps)).1
      have hkey₂ : (jointMode (ps ++ qs)).fold n.value =
          Offer.key (jointMode (ps ++ qs)) (inner, o.2.inMode (jointMode ps)) := by
        rw [hkey, Offer.key, Offer.key, hvalue]
      have hkey₁ : (jointMode ps).fold (o.2.inMode (jointMode ps)).name.value =
          o.key (jointMode ps) := by
        rw [hvalue, Offer.key]
      cases vs with
      | nil =>
        rw [hunites.found _ hw n context' hkey₂, h₃.unites.found _ hv n context' hkey]
        obtain ⟨m₂, hm₂⟩ := h₂.answered _ hw
        have hfound : a₁.resolveName (.ofName (o.2.inMode (jointMode ps)).name [] context)
            settings m₂ = (.ok u, m₂) := by
          rw [h₁.unites.found _ hu _ context hkey₁]
          rfl
        obtain rfl : u = w := by
          simp only [Offer.resolve, hinner] at hm₂
          exact Except.ok.inj ((congrArg Prod.fst hfound).symm.trans hm₂)
        exact alike_of_answered howner (h₁.answered _ hu) (h₃.answered _ hv)
      | cons v' vs =>
        rw [hunites.owner _ hw n v' vs context' hkey₂, h₃.unites.owner _ hv n v' vs context' hkey]
        simp only [hinner]
        show R (a₁.resolveName _ settings' m).1 _
        rw [h₁.unites.owner _ hu _ v' vs context' hkey₁]
        exact howner _ _ _ _ _ _
    · obtain ⟨w, hw⟩ := h₂.exists_answer (o := o) (List.mem_append_right _ ho)
      cases vs with
      | nil =>
        rw [hunites.found _ hw n context' hkey, h₃.unites.found _ hv n context' hkey]
        exact alike_of_answered howner (h₂.answered _ hw) (h₃.answered _ hv)
      | cons v' vs =>
        rw [hunites.owner _ hw n v' vs context' hkey, h₃.unites.owner _ hv n v' vs context' hkey]
        exact howner _ _ _ _ _ _
  · have hkeys := h.keys_perm qs (jointMode (ps ++ qs))
    have hunknown : ∀ k ∈ (offers (ps ++ qs)).map (Offer.key (jointMode (ps ++ qs))),
        k ≠ (jointMode (ps ++ qs)).fold n.value := by
      rintro k hk rfl
      obtain ⟨o, ho, hkey⟩ := List.mem_map.1 hk
      exact hknown ⟨o, ho, hkey.symm⟩
    rw [hunites.unknown n vs context' fun x hx => hunknown _ (hkeys.mem_iff.1
        (List.mem_map_of_mem (h₂.offers_eq ▸ List.mem_map_of_mem hx))),
      h₃.unites.unknown n vs context' fun x hx => hunknown _
        (List.mem_map_of_mem (h₃.offers_eq ▸ List.mem_map_of_mem hx))]
    exact hR.equivalence.refl _

/-- What has been aggregated stands for its members in another aggregate. -/
theorem Gathers.exists_standsFor {a₁ : Aggregate σ} {xs₁ : List (Offer σ × Value)}
    (h : Gathers settings context ps a₁ xs₁) (id : Nat) :
    ∃ inner : Advertiser σ, inner.toMember = ⟨id, a₁.provider⟩ ∧ StandsFor inner ps ∧
      ∀ i ∈ inner.catalog.entries, ∀ m,
        (Offer.resolve context (inner, i) settings m).1.isOk = true := by
  obtain ⟨inner, hinner, hmode, hperm⟩ := h.exists_advertiser id
  have hprovider : inner.provider = a₁.provider := congrArg Member.provider hinner
  refine ⟨inner, hinner, ⟨?_, hperm⟩, fun i hi m => ?_⟩
  · rw [hprovider]
    exact h.unites.mode_eq
  · obtain ⟨o, ho, rfl⟩ := List.mem_map.1 (hperm.mem_iff.1 hi)
    obtain ⟨v, hv⟩ := h.exists_answer ho
    have hkey : (jointMode ps).fold (o.2.inMode (jointMode ps)).name.value = o.key (jointMode ps) := by
      rw [(o.2.inMode_eq (jointMode ps)).1, Offer.key]
    simp only [Offer.resolve, hprovider]
    show (a₁.resolveName _ settings m).1.isOk = true
    rw [h.unites.found _ hv _ context hkey]
    rfl

end Nested

end Aggregate

/-! ## Merging some members first -/

/-- What some members were merged into, as a member: the only one of them, or a new object. -/
def Merged.asMember (id : Nat) : Merged σ → Member σ
  | .single m => m
  | .aggregate a => ⟨id, a.provider⟩

/-- Merges some members, and then what they give with the others. -/
def aggregateFirst (id : Nat) (ps qs : List (Member σ)) (context : Value) :
    Resolution σ (Merged σ) := do
  let inner ← aggregate ps context
  aggregate (inner.asMember id :: qs) context

/-- Providers of one mode that advertise the same names and tokens and give the same answers. -/
structure Provider.Alike (R : Except Failure Value → Except Failure Value → Prop)
    (p q : Provider σ) : Prop where
  mode : p.mode = q.mode
  lists : ∃ raws, p.Lists raws ∧ q.Lists raws
  resolveName : ∀ (n : Name) (vs : List Value) (context : Value) (settings : Settings)
    (m m' : Memory σ), R (p.resolveName (.ofName n vs context) settings m).1
      (q.resolveName (.ofName n vs context) settings m').1

namespace Aggregate

variable {R : Except Failure Value → Except Failure Value → Prop} {settings : Settings}
  {context : Value} {members ps qs : List (Advertiser σ)}

/-- What has been merged is one of the members or gathers them all. -/
theorem exists_of_aggregate (hR : Discerning R) (hsteady : ∀ x ∈ members, x.provider.Steady R)
    (hids : (members.map (·.id)).Nodup) {merged : Merged σ} {m m' : Memory σ}
    (h : aggregate (members.map (·.toMember)) context settings m = (.ok merged, m')) :
    (∃ x ∈ members, merged = .single x.toMember) ∨
      ∃ a xs, merged = .aggregate a ∧ Gathers settings context members a xs := by
  match members with
  | [] => cases h
  | [x] =>
    cases h
    exact .inl ⟨x, List.mem_cons_self, rfl⟩
  | x :: y :: rest =>
    rw [aggregate_eq hids] at h
    obtain ⟨a, m₁, ha, h⟩ := Resolution.exists_of_bind_ok h
    cases h
    obtain ⟨-, xs, hxs⟩ := ready_of_make hR hsteady (List.cons_ne_nil _ _) hids ha
    exact .inr ⟨a, xs, rfl, hxs⟩

/-- What has been merged answers alike at any time. -/
theorem alike_self (hR : Discerning R) (hsteady : ∀ x ∈ members, x.provider.Steady R)
    (hids : (members.map (·.id)).Nodup) {merged : Merged σ} {m m' : Memory σ}
    (h : aggregate (members.map (·.toMember)) context settings m = (.ok merged, m')) :
    merged.provider.Alike R merged.provider := by
  rcases exists_of_aggregate hR hsteady hids h with ⟨x, hx, rfl⟩ | ⟨a, xs, rfl, hgathers⟩
  · exact ⟨rfl, ⟨_, lists_advertiser x, lists_advertiser x⟩, hsteady x hx⟩
  · obtain ⟨x, hx, -, -⟩ := hgathers.exists_advertiser 0
    have hprovider : x.provider = a.provider := congrArg Member.provider hx
    have hlists := lists_advertiser x
    rw [hprovider] at hlists
    exact ⟨rfl, ⟨_, hlists, hlists⟩, hgathers.steady hR hsteady⟩

/-- An aggregate with an aggregate among its members is like the aggregate of all members. -/
theorem alike_of_standsFor (hR : Discerning R) (hsteady : ∀ x ∈ ps ++ qs, x.provider.Steady R)
    {inner : Advertiser σ} (h : StandsFor inner ps) {a₁ a₂ a₃ : Aggregate σ}
    {xs₁ xs₂ xs₃ : List (Offer σ × Value)} (hinner : inner.provider = a₁.provider)
    (h₁ : Gathers settings context ps a₁ xs₁) (h₂ : Gathers settings context (inner :: qs) a₂ xs₂)
    (h₃ : Gathers settings context (ps ++ qs) a₃ xs₃) : a₂.provider.Alike R a₃.provider := by
  obtain ⟨s, hs, hlists, hraws⟩ := h₂.exists_catalog
  obtain ⟨t, ht, hlists', hraws'⟩ := h₃.exists_catalog
  have hmode := h.jointMode_eq qs
  refine ⟨?_, ⟨_, hlists, ?_⟩, alike_of_gathers hR hsteady h hinner h₁ h₂ h₃⟩
  · exact h₂.unites.mode_eq.trans (hmode.trans h₃.unites.mode_eq.symm)
  · rw [InfoSet.map_raw_of_perm (hs.trans (hmode.trans ht.symm))
      (hraws.trans ((h.raws_perm qs).trans hraws'.symm))]
    exact hlists'

section Several

variable {x y q : Advertiser σ} {rest : List (Advertiser σ)} {id : Nat} {m m' : Memory σ}

theorem aggregate_several (hids : ((x :: y :: rest).map (·.id)).Nodup) {merged : Merged σ} :
    aggregate ((x :: y :: rest).map (·.toMember)) context settings m = (.ok merged, m') ↔
      ∃ a, merged = .aggregate a ∧
        make ((x :: y :: rest).map (·.toMember)) context settings m = (.ok a, m') := by
  rw [aggregate_eq hids]
  constructor
  · intro h
    obtain ⟨a, m₁, ha, h⟩ := Resolution.exists_of_bind_ok h
    cases h
    exact ⟨a, rfl, ha⟩
  · rintro ⟨a, rfl, ha⟩
    rw [Resolution.bind_apply, ha]
    rfl

/-- Several members are merged first, and their aggregate then stands for them. -/
theorem aggregateFirst_several (hids : ((x :: y :: rest).map (·.id)).Nodup) {merged : Merged σ} :
    aggregateFirst id ((x :: y :: rest).map (·.toMember)) (qs.map (·.toMember)) context settings m =
        (.ok merged, m') ↔
      ∃ a m₁, make ((x :: y :: rest).map (·.toMember)) context settings m = (.ok a, m₁) ∧
        aggregate (⟨id, a.provider⟩ :: qs.map (·.toMember)) context settings m₁ =
          (.ok merged, m') := by
  constructor
  · intro h
    obtain ⟨inner, m₁, hinner, h⟩ := Resolution.exists_of_bind_ok h
    obtain ⟨a, rfl, ha⟩ := (aggregate_several hids).1 hinner
    exact ⟨a, m₁, ha, h⟩
  · rintro ⟨a, m₁, ha, h⟩
    rw [aggregateFirst, Resolution.bind_apply, (aggregate_several hids).2 ⟨a, rfl, ha⟩]
    exact h

/-- With an aggregate of several members among them, other members make an aggregate exactly if they
do with the several members themselves, and then the two are alike. -/
theorem alike_of_several (hR : Discerning R)
    (hids : (id :: ((x :: y :: rest) ++ q :: qs).map (·.id)).Nodup)
    (hsteady : ∀ z ∈ (x :: y :: rest) ++ q :: qs, z.provider.Steady R) (m : Memory σ) :
    ((∃ a m', aggregateFirst id ((x :: y :: rest).map (·.toMember)) ((q :: qs).map (·.toMember))
        context settings m = (.ok a, m')) ↔
      ∃ b m', aggregate (((x :: y :: rest) ++ q :: qs).map (·.toMember)) context settings m =
        (.ok b, m')) ∧
    ∀ a b m₁ m₂, aggregateFirst id ((x :: y :: rest).map (·.toMember)) ((q :: qs).map (·.toMember))
        context settings m = (.ok a, m₁) →
      aggregate (((x :: y :: rest) ++ q :: qs).map (·.toMember)) context settings m = (.ok b, m₂) →
      a.provider.Alike R b.provider := by
  obtain ⟨hid, hall⟩ := List.nodup_cons.1 hids
  rw [List.map_append] at hid
  have hps : ((x :: y :: rest).map (·.id)).Nodup := by
    rw [List.map_append] at hall
    exact hall.of_append_left
  have hqs : (id :: (q :: qs).map (·.id)).Nodup := by
    rw [List.map_append] at hall
    exact List.nodup_cons.2 ⟨fun h => hid (List.mem_append_right _ h), hall.of_append_right⟩
  have hleft : ∀ z ∈ x :: y :: rest, z.provider.Steady R := fun z hz =>
    hsteady z (List.mem_append_left _ hz)
  have hne : (x :: y :: rest) ++ q :: qs ≠ [] := List.cons_ne_nil _ _
  -- Once the first members are merged, the others can be united with what they gave if and only if
  -- all can be united.
  have hinner : ∀ {a₁ m₁}, make ((x :: y :: rest).map (·.toMember)) context settings m =
      (.ok a₁, m₁) → ∃ inner xs₁, Advertiser.toMember inner = ⟨id, a₁.provider⟩ ∧
        StandsFor inner (x :: y :: rest) ∧ Gathers settings context (x :: y :: rest) a₁ xs₁ ∧
        ((inner :: q :: qs).map (·.id)).Nodup ∧
        (∀ z ∈ inner :: q :: qs, z.provider.Steady R) ∧
        (Ready settings context (inner :: q :: qs) ↔
          Ready settings context ((x :: y :: rest) ++ q :: qs)) := by
    intro a₁ m₁ ha₁
    obtain ⟨hready, xs₁, hgathers⟩ := ready_of_make hR hleft (List.cons_ne_nil _ _) hps ha₁
    obtain ⟨inner, hmember, hstands, hanswers⟩ := hgathers.exists_standsFor id
    have hprovider : inner.provider = a₁.provider := congrArg Member.provider hmember
    have hinnerid : inner.id = id := congrArg Member.id hmember
    refine ⟨inner, xs₁, hmember, hstands, hgathers, ?_, ?_, hstands.ready_iff hready hanswers⟩
    · rwa [List.map_cons, hinnerid]
    · intro z hz
      rcases List.mem_cons.1 hz with rfl | hz
      · rw [hprovider]
        exact hgathers.steady hR hleft
      · exact hsteady z (List.mem_append_right _ hz)
  refine ⟨⟨?_, ?_⟩, ?_⟩
  · rintro ⟨merged, m', h⟩
    obtain ⟨a₁, m₁, ha₁, h⟩ := (aggregateFirst_several hps).1 h
    obtain ⟨inner, xs₁, hmember, -, -, hinnerids, hinnersteady, hready⟩ := hinner ha₁
    rw [← hmember] at h
    obtain ⟨a₂, -, ha₂⟩ := (aggregate_several hinnerids).1 h
    obtain ⟨hready₂, -⟩ := ready_of_make hR hinnersteady (List.cons_ne_nil _ _) hinnerids ha₂
    obtain ⟨a₃, m₃, ha₃⟩ := exists_make_of_ready hne hall (hready.1 hready₂) m
    exact ⟨.aggregate a₃, m₃, (aggregate_several hall).2 ⟨a₃, rfl, ha₃⟩⟩
  · rintro ⟨merged, m', h⟩
    obtain ⟨a₃, -, ha₃⟩ := (aggregate_several hall).1 h
    obtain ⟨hready₃, -⟩ := ready_of_make hR hsteady hne hall ha₃
    obtain ⟨a₁, m₁, ha₁⟩ := exists_make_of_ready (List.cons_ne_nil _ _) hps hready₃.left m
    obtain ⟨inner, xs₁, hmember, -, -, hinnerids, -, hready⟩ := hinner ha₁
    obtain ⟨a₂, m₂, ha₂⟩ :=
      exists_make_of_ready (List.cons_ne_nil _ _) hinnerids (hready.2 hready₃) m₁
    have hmerged := (aggregate_several hinnerids).2 ⟨a₂, rfl, ha₂⟩
    rw [List.map_cons, hmember] at hmerged
    exact ⟨.aggregate a₂, m₂, (aggregateFirst_several hps).2 ⟨a₁, m₁, ha₁, hmerged⟩⟩
  · intro a b m₂ m₃ ha hb
    obtain ⟨a₁, m₁, ha₁, ha⟩ := (aggregateFirst_several hps).1 ha
    obtain ⟨inner, xs₁, hmember, hstands, hgathers, hinnerids, hinnersteady, -⟩ := hinner ha₁
    rw [← hmember] at ha
    obtain ⟨a₂, rfl, ha₂⟩ := (aggregate_several hinnerids).1 ha
    obtain ⟨a₃, rfl, ha₃⟩ := (aggregate_several hall).1 hb
    obtain ⟨-, xs₂, h₂⟩ := ready_of_make hR hinnersteady (List.cons_ne_nil _ _) hinnerids ha₂
    obtain ⟨-, xs₃, h₃⟩ := ready_of_make hR hsteady hne hall ha₃
    exact alike_of_standsFor hR hsteady hstands (congrArg Member.provider hmember) hgathers h₂ h₃

end Several

/-- Aggregation is associative. Members that answer alike at any time can be merged if and only if
some of them can be merged first and what they give with the others, whatever their modes. Then the
two results have one mode, advertise the same names and tokens and give the same answers to every
name with any values, where sameness is any equivalence that tells answers from failures. -/
theorem aggregateFirst_alike (hR : Discerning R) (ps qs : List (Advertiser σ)) (id : Nat)
    (hne : ps ≠ []) (hids : (id :: (ps ++ qs).map (·.id)).Nodup)
    (hsteady : ∀ x ∈ ps ++ qs, x.provider.Steady R) (settings : Settings) (context : Value)
    (m : Memory σ) :
    ((∃ a m', aggregateFirst id (ps.map (·.toMember)) (qs.map (·.toMember)) context settings m =
        (.ok a, m')) ↔
      ∃ b m', aggregate ((ps ++ qs).map (·.toMember)) context settings m = (.ok b, m')) ∧
    ∀ a b m₁ m₂,
      aggregateFirst id (ps.map (·.toMember)) (qs.map (·.toMember)) context settings m =
        (.ok a, m₁) →
      aggregate ((ps ++ qs).map (·.toMember)) context settings m = (.ok b, m₂) →
      a.provider.Alike R b.provider := by
  have hall := (List.nodup_cons.1 hids).2
  match ps, qs with
  | [], _ => exact absurd rfl hne
  | [x], qs =>
    -- One provider alone is not wrapped.
    have hfirst : aggregateFirst id ([x].map (·.toMember)) (qs.map (·.toMember)) context =
        aggregate (([x] ++ qs).map (·.toMember)) context := rfl
    rw [hfirst]
    refine ⟨Iff.rfl, fun a b m₁ m₂ ha hb => ?_⟩
    obtain ⟨rfl, -⟩ : a = b ∧ m₁ = m₂ := by simpa using ha.symm.trans hb
    exact alike_self hR hsteady hall ha
  | x :: y :: rest, [] =>
    rw [List.append_nil] at hall hsteady ⊢
    have hfirst : ∀ a m', aggregateFirst id ((x :: y :: rest).map (·.toMember)) [] context settings
        m = (.ok a, m') ↔ ∃ a₁, a = .single ⟨id, a₁.provider⟩ ∧
          make ((x :: y :: rest).map (·.toMember)) context settings m = (.ok a₁, m') := by
      intro a m'
      rw [← List.map_nil, aggregateFirst_several hall]
      constructor
      · rintro ⟨a₁, m₁, ha₁, h⟩
        cases h
        exact ⟨a₁, rfl, ha₁⟩
      · rintro ⟨a₁, rfl, ha₁⟩
        exact ⟨a₁, m', ha₁, rfl⟩
    rw [List.map_nil]
    refine ⟨⟨?_, ?_⟩, ?_⟩
    · rintro ⟨a, m', ha⟩
      obtain ⟨a₁, -, ha₁⟩ := (hfirst a m').1 ha
      exact ⟨.aggregate a₁, m', (aggregate_several hall).2 ⟨a₁, rfl, ha₁⟩⟩
    · rintro ⟨b, m', hb⟩
      obtain ⟨a₁, -, ha₁⟩ := (aggregate_several hall).1 hb
      exact ⟨.single ⟨id, a₁.provider⟩, m', (hfirst _ m').2 ⟨a₁, rfl, ha₁⟩⟩
    · intro a b m₁ m₂ ha hb
      have hself := alike_self hR hsteady hall hb
      obtain ⟨a₁, rfl, ha₁⟩ := (hfirst a m₁).1 ha
      obtain ⟨b₁, rfl, hb₁⟩ := (aggregate_several hall).1 hb
      obtain ⟨rfl, -⟩ : a₁ = b₁ ∧ m₁ = m₂ := by simpa using ha₁.symm.trans hb₁
      exact hself
  | x :: y :: rest, q :: qs => exact alike_of_several hR hids hsteady m

theorem discerning_eq : Discerning (Eq : Except Failure Value → Except Failure Value → Prop) where
  equivalence := eq_equivalence
  isOk_eq h := by rw [h]

/-- A sensitive member and two insensitive ones, the first two of which are merged first. -/
theorem aggregateFirst_alike_letters :
    ∃ a b m₁ m₂,
      aggregateFirst 3 [rounding.toMember, silent.toMember]
        [(lettered Unit (.insensitive, 2)).toMember] .null {} ⟨0, ()⟩ = (.ok a, m₁) ∧
      aggregate [rounding.toMember, silent.toMember, (lettered Unit (.insensitive, 2)).toMember]
        .null {} ⟨0, ()⟩ = (.ok b, m₂) ∧
      a.provider.Alike Eq b.provider := by
  have hsteady : ∀ x ∈ [rounding, silent] ++ [lettered Unit (.insensitive, 2)],
      x.provider.Steady Eq := by
    intro x hx n vs context settings m m'
    simp only [List.cons_append, List.nil_append, List.mem_cons, List.not_mem_nil, or_false] at hx
    rcases hx with rfl | rfl | rfl <;> rfl
  obtain ⟨hmerged, halike⟩ := aggregateFirst_alike discerning_eq [rounding, silent]
    [lettered Unit (.insensitive, 2)] 3 (List.cons_ne_nil _ _) (by decide) hsteady {} .null ⟨0, ()⟩
  have hisOk : (aggregate [rounding.toMember, silent.toMember,
      (lettered Unit (.insensitive, 2)).toMember] .null {} ⟨0, ()⟩).1.isOk = true := by
    decide +kernel
  obtain ⟨b, hb⟩ := exists_of_isOk hisOk
  obtain ⟨a, m₁, ha⟩ := hmerged.2 ⟨b, _, Prod.ext hb rfl⟩
  exact ⟨a, b, m₁, _, ha, Prod.ext hb rfl, halike a b m₁ _ ha (Prod.ext hb rfl)⟩

end Aggregate

end FunctionCatalog
