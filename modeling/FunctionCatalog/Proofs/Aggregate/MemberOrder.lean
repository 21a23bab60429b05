import FunctionCatalog.Proofs.Aggregate.Construction
import Mathlib.Data.List.Nodup

/-
  FunctionCatalog: members in another order.
  Whether members collide, and on which folded names with which tokens, does not depend on their
  order. The order of the lines does: they are sorted by the names of the first owners, each of
  which compares in its own mode. Only where all members have one mode is it the order of the folded
  names.
-/

namespace FunctionCatalog.Aggregate

open scoped List

variable {σ : Type} {members members' : List (Advertiser σ)} {mode : CaseMode}

/-! ## What stays -/

theorem offers_perm (h : members ~ members') : offers members ~ offers members' :=
  h.flatMap_right _

theorem collides_of_perm (h : members ~ members') {k : String} :
    Collides mode members k ↔ Collides mode members' k := by
  unfold Collides
  simp only [(offers_perm h).mem_iff]

theorem jointMode_of_perm (h : members ~ members') : jointMode members = jointMode members' := by
  have hall : ∀ ms ms' : List (Advertiser σ), ms ~ ms' → jointMode ms = .sensitive →
      jointMode ms' = .sensitive := by
    intro ms ms' hperm hmode
    rw [modeOf_eq_sensitive, List.forall_mem_map] at hmode ⊢
    exact fun x hx => hmode x (hperm.mem_iff.2 hx)
  cases hmode : jointMode members with
  | sensitive => exact (hall _ _ h hmode).symm
  | insensitive =>
    cases hmode' : jointMode members' with
    | sensitive =>
      rw [hall _ _ h.symm hmode'] at hmode
      cases hmode
    | insensitive => rfl

/-- The lines of a report, with the names in the form in which the mode compares them. -/
def lines (mode : CaseMode) (report : List (Name × List String)) :
    List (String × List String) :=
  report.map (fun r => (mode.fold r.1.value, r.2))

theorem keys_lines (mode : CaseMode) (report : List (Name × List String)) :
    (lines mode report).map (·.1) = report.map (fun r => mode.fold r.1.value) := by
  rw [lines, List.map_map]
  rfl

/-- Every line of a report is a line of any report on the same members in another order. -/
theorem IsReport.mem_lines {r r' : List (Name × List String)} {l : String × List String}
    (h : IsReport mode members r) (h' : IsReport mode members' r') (hperm : members ~ members')
    (hl : l ∈ lines mode r) : l ∈ lines mode r' := by
  obtain ⟨x, hx, rfl⟩ := List.mem_map.1 hl
  have hcollides := (h.mem_iff (mode.fold x.1.value)).1 (List.mem_map_of_mem hx)
  obtain ⟨y, hy, hkey⟩ := List.mem_map.1 ((h'.mem_iff _).2 ((collides_of_perm hperm).1 hcollides))
  have hkey : mode.fold y.1.value = mode.fold x.1.value := hkey
  have howners := ((offers_perm hperm).filter (fun o => o.key mode = mode.fold x.1.value)).map
    (fun o => o.2.token)
  have htokens : x.2 ~ y.2 := by
    refine (h.perm x hx).trans (howners.trans ?_)
    rw [← hkey]
    exact (h'.perm y hy).symm
  have heq : x.2 = y.2 :=
    htokens.eq_of_pairwise (fun a b _ _ hab hba => String.le_antisymm hab hba)
      (h.ascending x hx) (h'.ascending y hy)
  exact List.mem_map.2 ⟨y, hy, by rw [hkey, heq]⟩

/-- The lines are the same but for their order. -/
theorem IsReport.lines_perm {r r' : List (Name × List String)} (h : IsReport mode members r)
    (h' : IsReport mode members' r') (hperm : members ~ members') :
    lines mode r ~ lines mode r' := by
  have hnodup : ∀ {ms : List (Advertiser σ)} {r : List (Name × List String)},
      IsReport mode ms r → (lines mode r).Nodup := by
    intro ms r hr
    refine .of_map (·.1) ?_
    rw [keys_lines]
    exact hr.distinct
  rw [List.perm_ext_iff_of_nodup (hnodup h) (hnodup h')]
  exact fun l => ⟨fun hl => h.mem_lines h' hperm hl, fun hl => h'.mem_lines h hperm.symm hl⟩

/-! ## Members that are refused together -/

/-- The members are refused with this report before any of them is asked. -/
def Refuses (members : List (Advertiser σ)) (report : List (Name × List String)) : Prop :=
  ∀ (context : Value) (settings : Settings) (m : Memory σ),
    aggregate (members.map (·.toMember)) context settings m = (.error (.collisions report), m)

/-- The members are not refused: where collisions are reported all the same, a member that was asked
for a name reported them. -/
def Admits (members : List (Advertiser σ)) : Prop :=
  ∀ (context : Value) (settings : Settings) (m : Memory σ) (report : List (Name × List String)),
    (aggregate (members.map (·.toMember)) context settings m).1 = .error (.collisions report) →
      ∃ o ∈ offers members, ∃ m₁, (o.resolve context settings m₁).1 = .error (.collisions report)

theorem Refuses.eq [Inhabited σ] {r r' : List (Name × List String)} (h : Refuses members r)
    (h' : Refuses members r') : r' = r := by
  have heq := (h' .null {} ⟨0, default⟩).symm.trans (h .null {} ⟨0, default⟩)
  exact Failure.collisions.inj (Except.error.inj (Prod.mk.inj heq).1)

theorem aggregate_eq {x y : Advertiser σ} {rest : List (Advertiser σ)}
    (hids : ((x :: y :: rest).map (·.id)).Nodup) (context : Value) :
    aggregate ((x :: y :: rest).map (·.toMember)) context =
      (do pure (.aggregate (← make ((x :: y :: rest).map (·.toMember)) context)) :
        Resolution σ (Merged σ)) := by
  have hdistinct : distinct ((x :: y :: rest).map (·.toMember)) =
      (x :: y :: rest).map (·.toMember) :=
    distinct_of_nodup (by rwa [List.map_map])
  unfold aggregate make
  rw [hdistinct]
  rfl

theorem refuses_reportOf (hids : (members.map (·.id)).Nodup)
    (hcollides : ∃ k, Collides (jointMode members) members k) :
    Refuses members (reportOf members) := by
  intro context settings m
  have hreport : reportOf members ≠ [] := fun hnil =>
    (reportOf_eq_nil_iff hids).1 hnil hcollides
  match members with
  | [] =>
    obtain ⟨k, o, ho, -⟩ := hcollides
    cases ho
  | [x] => exact absurd hcollides (not_collides_singleton x)
  | x :: y :: rest =>
    rw [aggregate_eq hids, Resolution.bind_apply,
      make_of_report settings context (List.cons_ne_nil _ _) hids hreport m]

theorem admits_of_not_collides (hids : (members.map (·.id)).Nodup)
    (hnone : ¬ ∃ k, Collides (jointMode members) members k) : Admits members := by
  intro context settings m report h
  match members with
  | [] => cases h
  | [x] => cases h
  | x :: y :: rest =>
    obtain ⟨xs, failure, m', hxs, htakes, hmake⟩ :=
      exists_make_of_unique settings context (List.cons_ne_nil _ _) hids hnone m
    rw [aggregate_eq hids, Resolution.bind_apply] at h
    cases failure with
    | some e =>
      dsimp only at hmake
      rw [hmake] at h
      cases h
      obtain ⟨z, hz, m₁, hask⟩ := htakes.exists_failed
      exact ⟨z.1, hxs ▸ List.mem_map_of_mem hz, m₁, hask⟩
    | none =>
      obtain ⟨r, hr, hcompletes⟩ := hmake
      rw [hr] at h
      cases r with
      | ok a => cases h
      | error e =>
        obtain ⟨i, -, rfl⟩ := hcompletes.rejected e rfl
        cases h

/-! ## Members of one mode -/

/-- Where all members have one mode the lines ascend. -/
theorem ascending_reportOf (h : ∀ x ∈ members, x.provider.mode = jointMode members) :
    (lines (jointMode members) (reportOf members)).Pairwise (fun a b => a.1 < b.1) := by
  have hmode : ∀ g ∈ named (owners (jointMode members) (members.map (·.toMember))),
      g.1.mode = jointMode members := by
    intro g hg
    obtain ⟨o, ho, hname, -⟩ := exists_of_mem_named hg
    rw [hname, mode_of_mem_offers ho]
    exact h o.1 (mem_offers.1 ho).1
  have hle : (lines (jointMode members) (reportOf members)).Pairwise (fun a b => a.1 ≤ b.1) := by
    refine List.pairwise_map.2 (List.pairwise_map.2 ?_)
    exact (Name.pairwise_sortOn hmode).filter _
  have hne : (lines (jointMode members) (reportOf members)).Pairwise (fun a b => a.1 ≠ b.1) := by
    refine List.pairwise_map.1 ?_
    rw [keys_lines]
    exact nodup_reportOf members
  refine (hle.and hne).imp ?_
  rintro a b ⟨hab, hne⟩
  exact String.not_le.1 fun hba => hne (String.le_antisymm hab hba)

theorem mode_eq_jointMode
    (h : ∀ x ∈ members, ∀ y ∈ members, x.provider.mode = y.provider.mode) :
    ∀ x ∈ members, x.provider.mode = jointMode members := by
  intro x hx
  cases hmode : x.provider.mode with
  | sensitive =>
    refine (modeOf_eq_sensitive.2 (List.forall_mem_map.2 fun y hy => ?_)).symm
    rw [← h x hx y hy, hmode]
  | insensitive =>
    cases hjoint : jointMode members with
    | insensitive => rfl
    | sensitive =>
      rw [modeOf_eq_sensitive, List.forall_mem_map] at hjoint
      rw [← hmode]
      exact hjoint x hx

/-- In either order the members are refused with the same lines, ascending by their folded names. -/
def ReportAlike (members members' : List (Advertiser σ)) : Prop :=
  ∃ r r', Refuses members r ∧ Refuses members' r' ∧
    lines (jointMode members) r = lines (jointMode members') r' ∧
    (lines (jointMode members) r).Pairwise (fun a b => a.1 < b.1)

theorem lines_reportOf_perm (hids : (members.map (·.id)).Nodup) (hperm : members ~ members') :
    lines (jointMode members) (reportOf members) ~
      lines (jointMode members') (reportOf members') := by
  have hids' : (members'.map (·.id)).Nodup := (hperm.map _).nodup_iff.1 hids
  have hreport' := isReport_reportOf hids'
  rw [← jointMode_of_perm hperm] at hreport' ⊢
  exact (isReport_reportOf hids).lines_perm hreport' hperm

theorem reportAlike_of_mode (hids : (members.map (·.id)).Nodup) (hperm : members ~ members')
    (hmode : ∀ x ∈ members, x.provider.mode = jointMode members)
    (hcollides : ∃ k, Collides (jointMode members) members k) : ReportAlike members members' := by
  have hids' : (members'.map (·.id)).Nodup := (hperm.map _).nodup_iff.1 hids
  have hcollides' : ∃ k, Collides (jointMode members') members' k := by
    obtain ⟨k, hk⟩ := hcollides
    exact ⟨k, jointMode_of_perm hperm ▸ (collides_of_perm hperm).1 hk⟩
  have hmode' : ∀ x ∈ members', x.provider.mode = jointMode members' := by
    intro x hx
    rw [← jointMode_of_perm hperm]
    exact hmode x (hperm.mem_iff.2 hx)
  have hlines := ascending_reportOf hmode
  refine ⟨_, _, refuses_reportOf hids hcollides, refuses_reportOf hids' hcollides', ?_, hlines⟩
  refine (lines_reportOf_perm hids hperm).eq_of_pairwise ?_ hlines (ascending_reportOf hmode')
  intro a b _ _ hab hba
  exact absurd (String.lt_trans hab hba) (String.lt_irrefl _)

/-! ## Members of both modes -/

section Pair

variable {o p : Offer σ} {os : List (Offer σ)}

theorem eraseDups_pair {j k : String} {ks : List String} (hne : j ≠ k)
    (h : ∀ i ∈ ks, i = j ∨ i = k) : (j :: k :: ks).eraseDups = [j, k] := by
  have hrest : ((ks.filter (fun i => !i == j)).filter (fun i => !i == k)) = [] := by
    rw [List.filter_filter, List.filter_eq_nil_iff]
    intro i hi
    rcases h i hi with rfl | rfl <;> simp
  rw [List.eraseDups_cons, List.filter_cons_of_pos (by simpa using hne.symm), List.eraseDups_cons,
    hrest]
  rfl

/-- Two folded names, of which the first two offers are the first owners. -/
theorem named_of_pair (hoffers : offers members = o :: p :: os) (hne : o.key mode ≠ p.key mode)
    (hos : ∀ q ∈ os, q.key mode = o.key mode ∨ q.key mode = p.key mode) :
    named (owners mode (members.map (·.toMember))) =
      [(o.2.name, .info o.2 :: (groupOf (Offer.key mode) os (o.key mode)).map (fun q => .info q.2)),
        (p.2.name,
          .info p.2 :: (groupOf (Offer.key mode) os (p.key mode)).map (fun q => .info q.2))] := by
  have hkeys : ((offers members).map (Offer.key mode)).eraseDups = [o.key mode, p.key mode] := by
    rw [hoffers, List.map_cons, List.map_cons]
    exact eraseDups_pair hne (List.forall_mem_map.2 hos)
  have hfirst : ownersOf mode members (o.key mode) =
      o :: groupOf (Offer.key mode) os (o.key mode) := by
    rw [ownersOf, hoffers]
    simp [groupOf, hne.symm]
  have hsecond : ownersOf mode members (p.key mode) =
      p :: groupOf (Offer.key mode) os (p.key mode) := by
    rw [ownersOf, hoffers]
    simp [groupOf, hne]
  rw [named_owners, hkeys]
  simp [hfirst, hsecond]

/-- Where both have further owners both are reported, in the order of the names of the first. -/
theorem keys_reportOf_of_pair {j k : String} (hmode : jointMode members = mode)
    (hoffers : offers members = o :: p :: os) (hoj : o.key mode = j) (hpk : p.key mode = k)
    (hjk : j ≠ k) (hos : ∀ q ∈ os, q.key mode = j ∨ q.key mode = k)
    (hj : ∃ q ∈ os, q.key mode = j) (hk : ∃ q ∈ os, q.key mode = k)
    (hnames : p.2.name.mode = o.2.name.mode) (hle : o.2.name.key ≤ p.2.name.key) :
    (lines mode (reportOf members)).map (·.1) = [j, k] := by
  subst hoj hpk
  have hlength : ∀ k, (∃ q ∈ os, q.key mode = k) →
      0 < (groupOf (Offer.key mode) os k).length := by
    rintro k ⟨q, hq, hk⟩
    exact List.length_pos_of_mem (List.mem_filter.2 ⟨hq, decide_eq_true hk⟩)
  have hjpos := hlength _ hj
  have hkpos := hlength _ hk
  have hnamed := named_of_pair hoffers hjk hos
  have hsorted : ∀ items items' : List Item,
      Name.sortOn (·.1) [(o.2.name, items), (p.2.name, items')] =
        [(o.2.name, items), (p.2.name, items')] :=
    fun items items' => Name.sortOn_pair hnames hle
  rw [keys_lines, reportOf, hmode, hnamed, hsorted, List.filter_cons_of_pos (by simpa using hjpos),
    List.filter_cons_of_pos (by simpa using hkpos), List.filter_nil]
  rfl

end Pair

section Mixed

variable {p : CaseMode × Nat} {ps : List (CaseMode × Nat)}

theorem key_of_lettered {o : Offer σ} (h : o ∈ offers (ps.map (lettered σ))) :
    o.key .insensitive = "b" ∨ o.key .insensitive = "a" := by
  obtain ⟨hmember, hinfo⟩ := mem_offers.1 h
  obtain ⟨q, -, hq⟩ := List.mem_map.1 hmember
  rw [← hq] at hinfo
  have hkeys : ∀ mode : CaseMode, ∀ i ∈ (letters mode).entries,
      CaseMode.fold .insensitive i.name.value = "b" ∨
        CaseMode.fold .insensitive i.name.value = "a" := by
    intro mode
    cases mode <;> decide
  exact hkeys q.1 o.2 hinfo

/-- Every member has both letters. -/
theorem exists_offer_of_lettered (σ : Type) {k : String} (hk : k = "b" ∨ k = "a") (h : ps ≠ []) :
    ∃ o ∈ offers (ps.map (lettered σ)), o.key .insensitive = k := by
  obtain ⟨q, hq⟩ := List.exists_mem_of_ne_nil ps h
  have hinfo : ∀ mode : CaseMode, ∃ i ∈ (letters mode).entries,
      CaseMode.fold .insensitive i.name.value = k := by
    intro mode
    rcases hk with rfl | rfl <;> cases mode <;> decide
  obtain ⟨i, hi, hkey⟩ := hinfo q.1
  exact ⟨(lettered σ q, i), mem_offers.2 ⟨List.mem_map_of_mem hq, hi⟩, hkey⟩

theorem jointMode_lettered (σ : Type) (h : .insensitive ∈ ps.map (·.1)) :
    jointMode (ps.map (lettered σ)) = .insensitive := by
  obtain ⟨q, hq, hmode⟩ := List.mem_map.1 h
  cases hjoint : jointMode (ps.map (lettered σ)) with
  | insensitive => rfl
  | sensitive =>
    rw [modeOf_eq_sensitive, List.forall_mem_map, List.forall_mem_map] at hjoint
    have hsensitive : q.1 = .sensitive := hjoint q hq
    rw [hmode] at hsensitive
    cases hsensitive

/-- The letters in the order in which they are reported behind a first member. -/
def order : CaseMode → List String
  | .sensitive => ["b", "a"]
  | .insensitive => ["a", "b"]

theorem keys_lettered (σ : Type) (p : CaseMode × Nat) (ps : List (CaseMode × Nat))
    (h : .insensitive ∈ (p :: ps).map (·.1)) (hne : ps ≠ []) :
    (lines (jointMode ((p :: ps).map (lettered σ)))
      (reportOf ((p :: ps).map (lettered σ)))).map (·.1) = order p.1 := by
  obtain ⟨mode, id⟩ := p
  have hmode := jointMode_lettered σ h
  have hb := exists_offer_of_lettered σ (.inl rfl) hne
  have ha := exists_offer_of_lettered σ (.inr rfl) hne
  rw [hmode]
  cases mode with
  | sensitive =>
    have hupper : CaseMode.fold .insensitive upperB.name.value = "b" := by decide
    have hlower : CaseMode.fold .insensitive lowerA.name.value = "a" := by decide
    have hle : upperB.name.key ≤ lowerA.name.key := by decide
    exact keys_reportOf_of_pair hmode (offers_cons _ _) hupper hlower (by decide)
      (fun q hq => key_of_lettered hq) hb ha rfl hle
  | insensitive =>
    have hfirst : CaseMode.fold .insensitive foldedA.name.value = "a" := by decide
    have hsecond : CaseMode.fold .insensitive foldedB.name.value = "b" := by decide
    have hle : foldedA.name.key ≤ foldedB.name.key := by decide
    exact keys_reportOf_of_pair hmode (offers_cons _ _) hfirst hsecond (by decide)
      (fun q hq => (key_of_lettered hq).symm) ha hb rfl hle

theorem collides_lettered (σ : Type) (p : CaseMode × Nat) (ps : List (CaseMode × Nat))
    (h : .insensitive ∈ (p :: ps).map (·.1)) (hne : ps ≠ [])
    (hids : (((p :: ps).map (lettered σ)).map (·.id)).Nodup) :
    ∃ k, Collides (jointMode ((p :: ps).map (lettered σ))) ((p :: ps).map (lettered σ)) k := by
  by_contra hnone
  have hkeys := keys_lettered σ p ps h hne
  rw [(reportOf_eq_nil_iff hids).2 hnone] at hkeys
  cases hmode : p.1 <;> rw [hmode] at hkeys <;> cases hkeys

/-- Where both modes occur a sensitive one can be put first. -/
theorem exists_sensitive_first {modes : List CaseMode} (hs : .sensitive ∈ modes)
    (hi : .insensitive ∈ modes) :
    ∃ p ps, modes.zipIdx ~ p :: ps ∧ p.1 = .sensitive ∧ .insensitive ∈ ps.map (·.1) := by
  rw [← List.zipIdx_map_fst 0 modes] at hs hi
  obtain ⟨p, hp, hsensitive⟩ := List.mem_map.1 hs
  obtain ⟨front, back, hsplit⟩ := List.append_of_mem hp
  have hperm : modes.zipIdx ~ p :: (front ++ back) := by
    rw [hsplit]
    exact List.perm_middle
  have hmem := ((hperm.map (·.1)).mem_iff).1 hi
  rw [List.map_cons, List.mem_cons, hsensitive] at hmem
  exact ⟨p, front ++ back, hperm, hsensitive, hmem.resolve_left (by decide)⟩

/-- Behind a sensitive first member the letters are reported out of order. -/
theorem not_reportAlike_lettered {members : List (Advertiser σ)} [Inhabited σ]
    (hsensitive : p.1 = .sensitive) (hi : .insensitive ∈ ps.map (·.1))
    (hids : (((p :: ps).map (lettered σ)).map (·.id)).Nodup) :
    ¬ ReportAlike members ((p :: ps).map (lettered σ)) := by
  rintro ⟨r, r', -, hr', hlines, hascending⟩
  have hmixed : .insensitive ∈ (p :: ps).map (·.1) := List.mem_cons_of_mem _ hi
  have hne : ps ≠ [] := by
    rintro rfl
    cases hi
  have hkeys := keys_lettered σ p ps hmixed hne
  have hreport : r' = reportOf ((p :: ps).map (lettered σ)) :=
    (refuses_reportOf hids (collides_lettered σ p ps hmixed hne hids)).eq hr'
  rw [hlines, hreport] at hascending
  have hpairwise := List.pairwise_map.2 hascending
  rw [hkeys, hsensitive] at hpairwise
  exact absurd (List.pairwise_pair.1 hpairwise) (by decide)

/-- Where both modes occur some members with them are reported out of order. -/
theorem exists_not_reportAlike (σ : Type) [Inhabited σ] {modes : List CaseMode}
    (hs : .sensitive ∈ modes) (hi : .insensitive ∈ modes) :
    ∃ members members' : List (Advertiser σ), (members.map (·.id)).Nodup ∧
      members.map (·.provider.mode) = modes ∧ members ~ members' ∧
      (∃ k, Collides (jointMode members) members k) ∧ ¬ ReportAlike members members' := by
  obtain ⟨p, ps, hindices, hsensitive, hinsensitive⟩ := exists_sensitive_first hs hi
  have hperm := hindices.map (lettered σ)
  have hids : ((modes.zipIdx.map (lettered σ)).map (·.id)).Nodup := by
    rw [List.map_map]
    show (modes.zipIdx.map (·.2)).Nodup
    rw [List.zipIdx_map_snd]
    exact List.nodup_range'
  have hids' : (((p :: ps).map (lettered σ)).map (·.id)).Nodup :=
    (hperm.map _).nodup_iff.1 hids
  have hne : ps ≠ [] := by
    rintro rfl
    cases hinsensitive
  obtain ⟨k, hk⟩ :=
    collides_lettered σ p ps (List.mem_cons_of_mem _ hinsensitive) hne hids'
  rw [← jointMode_of_perm hperm] at hk
  refine ⟨_, _, hids, ?_, hperm, ⟨k, (collides_of_perm hperm).2 hk⟩,
    not_reportAlike_lettered hsensitive hinsensitive hids'⟩
  rw [List.map_map]
  exact List.zipIdx_map_fst 0 modes

end Mixed

/-- Whether members are refused, and for which folded names with which tokens, does not depend on
their order. Neither does the order of the lines, and it is that of the folded names, for all
members with certain modes exactly if these modes are all the same. -/
theorem report_of_perm (σ : Type) [Inhabited σ] :
    (∀ members members' : List (Advertiser σ), (members.map (·.id)).Nodup → members ~ members' →
      ((∃ k, Collides (jointMode members) members k) ∧
        ∃ r r', Refuses members r ∧ Refuses members' r' ∧
          lines (jointMode members) r ~ lines (jointMode members') r') ∨
      ((¬ ∃ k, Collides (jointMode members) members k) ∧ Admits members ∧ Admits members')) ∧
    (∀ modes : List CaseMode,
      (∀ members members' : List (Advertiser σ), (members.map (·.id)).Nodup →
        members.map (·.provider.mode) = modes → members ~ members' →
        (∃ k, Collides (jointMode members) members k) → ReportAlike members members') ↔
      ∀ a ∈ modes, ∀ b ∈ modes, a = b) := by
  refine ⟨fun members members' hids hperm => ?_, fun modes => ⟨fun h => ?_, fun h => ?_⟩⟩
  · have hids' : (members'.map (·.id)).Nodup := (hperm.map _).nodup_iff.1 hids
    have hcollides' : (∃ k, Collides (jointMode members) members k) ↔
        ∃ k, Collides (jointMode members') members' k := by
      rw [jointMode_of_perm hperm]
      exact exists_congr fun k => collides_of_perm hperm
    by_cases hcollides : ∃ k, Collides (jointMode members) members k
    · exact .inl ⟨hcollides, _, _, refuses_reportOf hids hcollides,
        refuses_reportOf hids' (hcollides'.1 hcollides), lines_reportOf_perm hids hperm⟩
    · exact .inr ⟨hcollides, admits_of_not_collides hids hcollides,
        admits_of_not_collides hids' (mt hcollides'.2 hcollides)⟩
  · have hmixed : ¬ (.sensitive ∈ modes ∧ .insensitive ∈ modes) := by
      rintro ⟨hs, hi⟩
      obtain ⟨members, members', hids, hmodes, hperm, hcollides, hnot⟩ :=
        exists_not_reportAlike σ hs hi
      exact hnot (h members members' hids hmodes hperm hcollides)
    intro a ha b hb
    cases a <;> cases b
    · rfl
    · exact absurd ⟨ha, hb⟩ hmixed
    · exact absurd ⟨hb, ha⟩ hmixed
    · rfl
  · intro members members' hids hmodes hperm hcollides
    have hone : ∀ x ∈ members, ∀ y ∈ members, x.provider.mode = y.provider.mode := by
      intro x hx y hy
      exact h _ (hmodes ▸ List.mem_map_of_mem hx) _ (hmodes ▸ List.mem_map_of_mem hy)
    exact reportAlike_of_mode hids hperm (mode_eq_jointMode hone) hcollides

/-- A sensitive and an insensitive member that are reported in two orders, the first of which is not
that of the folded names. -/
theorem letters_out_of_order :
    ∃ r r',
      Refuses [lettered Unit (.sensitive, 0), lettered Unit (.insensitive, 1)] r ∧
      Refuses [lettered Unit (.insensitive, 1), lettered Unit (.sensitive, 0)] r' ∧
      (lines .insensitive r).map (·.1) = ["b", "a"] ∧
      (lines .insensitive r').map (·.1) = ["a", "b"] := by
  have hcollides := collides_lettered Unit (.sensitive, 0) [(.insensitive, 1)] (by decide) (by simp)
    (by decide)
  have hcollides' := collides_lettered Unit (.insensitive, 1) [(.sensitive, 0)] (by decide)
    (by simp) (by decide)
  have hkeys := keys_lettered Unit (.sensitive, 0) [(.insensitive, 1)] (by decide) (by simp)
  have hkeys' := keys_lettered Unit (.insensitive, 1) [(.sensitive, 0)] (by decide) (by simp)
  exact ⟨_, _, refuses_reportOf (by decide) hcollides, refuses_reportOf (by decide) hcollides',
    hkeys, hkeys'⟩

end FunctionCatalog.Aggregate
