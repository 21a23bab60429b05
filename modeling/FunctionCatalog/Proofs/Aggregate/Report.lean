import FunctionCatalog.Proofs.Aggregate.Offers
import FunctionCatalog.Proofs.Name
import FunctionCatalog.Proofs.Name.Order
import FunctionCatalog.Proofs.NamedSet.Build
import FunctionCatalog.Proofs.Outcome
import Mathlib.Data.List.Nodup

/-
  FunctionCatalog: the report of collisions.
  The report has one line for each folded name that is advertised more than once, with the tokens of
  all its owners in ascending order.
-/

namespace FunctionCatalog

open scoped List

namespace Aggregate

variable {σ : Type}

/-! ## From groups to lines -/

def tokenText? : Item → Option String
  | .info i => some i.token
  | _ => none

/-- The line of a name and the items that have it. -/
def line (g : Name × List Item) : Name × List String :=
  (g.1, (g.2.filterMap tokenText?).mergeSort (· ≤ ·))

/-- Items that are infos. -/
def AreInfos (items : List Item) : Prop :=
  ∀ i ∈ items, ∃ j, i = .info j

theorem texts?_map (ts : List String) : texts? (ts.map Value.text) = some ts := by
  unfold texts?
  induction ts with
  | nil => rfl
  | cons t ts ih =>
    rw [List.map_cons, List.mapM_cons, ih]
    rfl

theorem mapM_token {items : List Item} (h : AreInfos items) :
    items.mapM Item.token = .ok ((items.filterMap tokenText?).map .text) := by
  induction items with
  | nil => rfl
  | cons i items ih =>
    obtain ⟨j, rfl⟩ := h i List.mem_cons_self
    rw [List.mapM_cons, ih (fun k hk => h k (List.mem_cons_of_mem _ hk))]
    rfl

theorem sortTokens_texts (ts : List String) :
    sortTokens (ts.map Value.text) = .ok ((ts.mergeSort (· ≤ ·)).map .text) := by
  rw [sortTokens, texts?_map]

theorem report_of_new {β : Type} {name : Name} {tokens : β} {reported : List (Name × β)}
    (h : ∀ r ∈ reported, r.1.same name = false) :
    report name tokens reported = reported ++ [(name, tokens)] := by
  induction reported with
  | nil => rfl
  | cons r reported ih =>
    obtain ⟨n, ts⟩ := r
    have hr : n.same name = false := h (n, ts) List.mem_cons_self
    rw [report, hr, ih (fun r hr => h r (List.mem_cons_of_mem _ hr))]
    rfl

theorem report_step {g : Name × List Item} {reported : List (Name × List Value)}
    (hinfos : AreInfos g.2) (hnew : ∀ r ∈ reported, r.1.same g.1 = false) :
    (do return report g.1 (← sortTokens (← g.2.mapM Item.token)) reported :
      Except Failure (List (Name × List Value))) =
      .ok (reported ++ [(g.1, (line g).2.map .text)]) := by
  rw [mapM_token hinfos]
  show (sortTokens ((g.2.filterMap tokenText?).map .text) >>= fun ts =>
    pure (report g.1 ts reported)) = _
  rw [sortTokens_texts]
  exact congrArg Except.ok (report_of_new hnew)

theorem foldlM_report (clashing : List (Name × List Item)) (reported : List (Name × List Value))
    (hinfos : ∀ g ∈ clashing, AreInfos g.2)
    (hnew : ∀ r ∈ reported, ∀ g ∈ clashing, r.1.same g.1 = false)
    (hdistinct : clashing.Pairwise (fun g h => g.1.same h.1 = false)) :
    clashing.foldlM (fun reported g => do
        return report g.1 (← sortTokens (← g.2.mapM Item.token)) reported) reported =
      (.ok (reported ++ clashing.map (fun g => (g.1, (line g).2.map .text))) :
        Except Failure (List (Name × List Value))) := by
  induction clashing generalizing reported with
  | nil => simp [pure, Except.pure]
  | cons g clashing ih =>
    obtain ⟨hg, hrest⟩ := List.pairwise_cons.1 hdistinct
    have hnew' : ∀ r ∈ reported ++ [(g.1, (line g).2.map Value.text)], ∀ h ∈ clashing,
        r.1.same h.1 = false := by
      intro r hr h hh
      rcases List.mem_append.1 hr with hr | hr
      · exact hnew r hr h (List.mem_cons_of_mem g hh)
      · rw [List.mem_singleton.1 hr]
        exact hg h hh
    have hstep := report_step (hinfos g List.mem_cons_self)
      (fun r hr => hnew r hr g List.mem_cons_self)
    rw [List.foldlM_cons, hstep]
    refine (ih _ (fun h hh => hinfos h (List.mem_cons_of_mem g hh)) hnew' hrest).trans ?_
    rw [List.append_assoc]
    rfl

/-- The name of each group that is not empty, with the items of all its owners. -/
def named (groups : List (Group σ)) : List (Name × List Item) :=
  groups.filterMap (fun g => g.2.head?.map (fun o => (o.1.name, g.2.map (·.1))))

theorem collisions_eq {groups : List (Group σ)} (hinfos : ∀ g ∈ named groups, AreInfos g.2)
    (hdistinct : (named groups).Pairwise (fun g h => g.1.same h.1 = false)) :
    collisions groups =
      .ok (((Name.sortOn (·.1) (named groups)).filter (fun g => 1 < g.2.length)).map line) := by
  have hperm : Name.sortOn (·.1) (named groups) ~ named groups := Name.sortOn_perm _ _
  have hsorted : (Name.sortOn (·.1) (named groups)).Pairwise
      (fun g h => g.1.same h.1 = false) :=
    (hperm.pairwise_iff fun h => (Name.same_comm _ _).trans h).2 hdistinct
  have hreported := foldlM_report
    ((Name.sortOn (·.1) (named groups)).filter (fun g => 1 < g.2.length)) []
    (fun g hg => hinfos g (hperm.subset (List.mem_filter.1 hg).1))
    (fun r hr => absurd hr List.not_mem_nil) (hsorted.filter _)
  refine (congrArg (· >>= fun reported => reported.mapM fun r => do
    return (r.1, ← Failure.ofOption .wrongKind (texts? r.2))) hreported).trans ?_
  show List.mapM _ (List.map _ _) = _
  rw [List.mapM_map]
  refine mapM_eq_ok_map fun g _ => ?_
  show (Failure.ofOption .wrongKind (texts? ((line g).2.map .text)) >>= fun ts =>
    pure (g.1, ts)) = _
  rw [texts?_map]
  rfl

/-! ## The groups of the scan -/

section Owners

variable {mode : CaseMode} {members : List (Advertiser σ)} {g : Name × List Item}

/-- The owners of a folded name. -/
def ownersOf (mode : CaseMode) (members : List (Advertiser σ)) (k : String) : List (Offer σ) :=
  groupOf (Offer.key mode) (offers members) k

theorem mem_ownersOf {o : Offer σ} {k : String} :
    o ∈ ownersOf mode members k ↔ o ∈ offers members ∧ o.key mode = k := by
  rw [ownersOf, groupOf, List.mem_filter, decide_eq_true_eq]

theorem named_owners (mode : CaseMode) (members : List (Advertiser σ)) :
    named (owners mode (members.map (·.toMember))) =
      ((offers members).map (Offer.key mode)).eraseDups.filterMap (fun k =>
        (ownersOf mode members k).head?.map (fun o =>
          (o.2.name, (ownersOf mode members k).map (fun p => Item.info p.2)))) := by
  rw [named, owners_eq, List.filterMap_map]
  refine List.filterMap_congr fun k _ => ?_
  show ((ownersOf mode members k).map Offer.entry).head?.map _ = _
  rw [List.head?_map, Option.map_map, List.map_map]
  rfl

theorem exists_of_mem_named (h : g ∈ named (owners mode (members.map (·.toMember)))) :
    ∃ o ∈ offers members, g.1 = o.2.name ∧
      g.2 = (ownersOf mode members (o.key mode)).map (fun p => Item.info p.2) := by
  rw [named_owners] at h
  obtain ⟨k, -, h⟩ := List.mem_filterMap.1 h
  obtain ⟨o, ho, rfl⟩ := Option.map_eq_some_iff.1 h
  obtain ⟨hoffer, rfl⟩ := mem_ownersOf.1 (List.mem_of_mem_head? ho)
  exact ⟨o, hoffer, rfl, rfl⟩

theorem keys_named (mode : CaseMode) (members : List (Advertiser σ)) :
    (named (owners mode (members.map (·.toMember)))).map (fun g => mode.fold g.1.value) =
      ((offers members).map (Offer.key mode)).eraseDups := by
  rw [named_owners, List.map_filterMap]
  refine (List.filterMap_eq_map_iff_forall_eq_some.2 fun k hk => ?_).trans (List.map_id _)
  obtain ⟨o, ho, hkey⟩ := List.mem_map.1 (List.mem_eraseDups.1 hk)
  cases hhead : (ownersOf mode members k).head? with
  | none =>
    have hmem : o ∈ ownersOf mode members k := mem_ownersOf.2 ⟨ho, hkey⟩
    rw [List.head?_eq_none_iff.1 hhead] at hmem
    cases hmem
  | some p =>
    have hp : p.key mode = k := (mem_ownersOf.1 (List.mem_of_mem_head? hhead)).2
    exact congrArg some hp

theorem areInfos_of_mem_named (h : g ∈ named (owners mode (members.map (·.toMember)))) :
    AreInfos g.2 := by
  obtain ⟨o, -, -, hg⟩ := exists_of_mem_named h
  intro i hi
  rw [hg] at hi
  obtain ⟨p, -, rfl⟩ := List.mem_map.1 hi
  exact ⟨p.2, rfl⟩

theorem pairwise_named (members : List (Advertiser σ)) :
    (named (owners (jointMode members) (members.map (·.toMember)))).Pairwise
      (fun g h => g.1.same h.1 = false) := by
  have hnodup := nodup_eraseDups ((offers members).map (Offer.key (jointMode members)))
  rw [← keys_named] at hnodup
  refine (List.pairwise_map.1 hnodup).imp_of_mem ?_
  intro g h hg hh hne
  obtain ⟨o, ho, hgo, -⟩ := exists_of_mem_named hg
  obtain ⟨p, hp, hhp, -⟩ := exists_of_mem_named hh
  rw [hgo, hhp] at hne ⊢
  rw [Bool.eq_false_iff]
  exact fun hsame =>
    hne (Name.fold_eq_of_same (join_of_mem_offers ho) (join_of_mem_offers hp) hsame)

/-- The lines of the report, in the order of the names of their first owners. -/
def reportOf (members : List (Advertiser σ)) : List (Name × List String) :=
  ((Name.sortOn (·.1) (named (owners (jointMode members) (members.map (·.toMember))))).filter
    (fun g => 1 < g.2.length)).map line

theorem collisions_owners (members : List (Advertiser σ)) :
    collisions (owners (jointMode members) (members.map (·.toMember))) =
      .ok (reportOf members) :=
  collisions_eq (fun _ hg => areInfos_of_mem_named hg) (pairwise_named members)

end Owners

/-! ## What the report says -/

/-- A folded name under which two different offers stand. -/
def Collides (mode : CaseMode) (members : List (Advertiser σ)) (k : String) : Prop :=
  ∃ o ∈ offers members, ∃ p ∈ offers members,
    (o.1.id ≠ p.1.id ∨ o.2 ≠ p.2) ∧ o.key mode = k ∧ p.key mode = k

/-- One line for each folded name that collides, with the tokens of all its owners in ascending
order. -/
structure IsReport (mode : CaseMode) (members : List (Advertiser σ))
    (report : List (Name × List String)) : Prop where
  distinct : (report.map (fun r => mode.fold r.1.value)).Nodup
  mem_iff : ∀ k, k ∈ report.map (fun r => mode.fold r.1.value) ↔ Collides mode members k
  ascending : ∀ r ∈ report, r.2.Pairwise (· ≤ ·)
  perm : ∀ r ∈ report,
    r.2 ~ (ownersOf mode members (mode.fold r.1.value)).map (fun o => o.2.token)

variable {mode : CaseMode} {members : List (Advertiser σ)}

theorem one_lt_length_ownersOf (h : (members.map (·.id)).Nodup) (k : String) :
    1 < (ownersOf mode members k).length ↔ Collides mode members k := by
  have hpairwise := (pairwise_offers h).filter (fun o => o.key mode = k)
  constructor
  · intro hlength
    match howners : ownersOf mode members k with
    | [] | [o] => simp [howners] at hlength
    | o :: p :: rest =>
      have ho : o ∈ ownersOf mode members k := by simp [howners]
      have hp : p ∈ ownersOf mode members k := by simp [howners]
      obtain ⟨ho, hko⟩ := mem_ownersOf.1 ho
      obtain ⟨hp, hkp⟩ := mem_ownersOf.1 hp
      change (ownersOf mode members k).Pairwise _ at hpairwise
      rw [howners] at hpairwise
      have hdiffer := (List.pairwise_cons.1 hpairwise).1 p List.mem_cons_self
      exact ⟨o, ho, p, hp, hdiffer, hko, hkp⟩
  · rintro ⟨o, ho, p, hp, hdiffer, hko, hkp⟩
    have ho : o ∈ ownersOf mode members k := mem_ownersOf.2 ⟨ho, hko⟩
    have hp : p ∈ ownersOf mode members k := mem_ownersOf.2 ⟨hp, hkp⟩
    match howners : ownersOf mode members k with
    | [] =>
      rw [howners] at ho
      cases ho
    | [q] =>
      rw [howners, List.mem_singleton] at ho hp
      rw [ho, hp] at hdiffer
      exact absurd rfl (hdiffer.resolve_left (fun hne => hne rfl))
    | q :: q' :: rest => simp

/-- A line of the report is that of a name with several owners. -/
theorem exists_of_mem_reportOf {r : Name × List String} (h : r ∈ reportOf members) :
    ∃ o ∈ offers members, r.1 = o.2.name ∧
      1 < (ownersOf (jointMode members) members (o.key (jointMode members))).length ∧
      r.2 = ((ownersOf (jointMode members) members (o.key (jointMode members))).map
        (fun p => p.2.token)).mergeSort (· ≤ ·) := by
  obtain ⟨g, hg, rfl⟩ := List.mem_map.1 h
  obtain ⟨hsorted, hlength⟩ := List.mem_filter.1 hg
  obtain ⟨o, ho, hname, hitems⟩ := exists_of_mem_named ((Name.sortOn_perm _ _).subset hsorted)
  rw [hitems, List.length_map, decide_eq_true_eq] at hlength
  have htokens : g.2.filterMap tokenText? =
      (ownersOf (jointMode members) members (o.key (jointMode members))).map
        (fun p => p.2.token) := by
    rw [hitems, List.filterMap_map]
    exact congrFun List.filterMap_eq_map' _
  refine ⟨o, ho, hname, hlength, ?_⟩
  rw [line, htokens]

/-- Every name with several owners has its line. -/
theorem mem_keys_reportOf {k : String} :
    k ∈ (reportOf members).map (fun r => (jointMode members).fold r.1.value) ↔
      1 < (ownersOf (jointMode members) members k).length := by
  constructor
  · intro hk
    obtain ⟨r, hr, rfl⟩ := List.mem_map.1 hk
    obtain ⟨o, -, hname, hlength, -⟩ := exists_of_mem_reportOf hr
    rw [hname]
    exact hlength
  · intro hlength
    obtain ⟨o, ho⟩ := List.exists_mem_of_length_pos (Nat.lt_of_succ_lt hlength)
    obtain ⟨hoffer, hkey⟩ := mem_ownersOf.1 ho
    have hk : k ∈ ((offers members).map (Offer.key (jointMode members))).eraseDups :=
      List.mem_eraseDups.2 (hkey ▸ List.mem_map_of_mem hoffer)
    rw [← keys_named] at hk
    obtain ⟨g, hg, hgk⟩ := List.mem_map.1 hk
    obtain ⟨p, -, hname, hitems⟩ := exists_of_mem_named hg
    have hpk : p.key (jointMode members) = k := by
      rw [← hgk, hname]
      rfl
    have hsorted := (Name.sortOn_perm (·.1) _).symm.subset hg
    have hseveral : 1 < g.2.length := by
      rwa [hitems, hpk, List.length_map]
    exact List.mem_map.2 ⟨line g,
      List.mem_map_of_mem (List.mem_filter.2 ⟨hsorted, decide_eq_true hseveral⟩), hgk⟩

theorem nodup_reportOf (members : List (Advertiser σ)) :
    ((reportOf members).map (fun r => (jointMode members).fold r.1.value)).Nodup := by
  have hnodup := nodup_eraseDups ((offers members).map (Offer.key (jointMode members)))
  rw [← keys_named] at hnodup
  have hsorted := ((Name.sortOn_perm (·.1) _).map _).nodup_iff.2 hnodup
  rw [reportOf, List.map_map]
  exact hsorted.sublist (List.filter_sublist.map _)

theorem isReport_reportOf (h : (members.map (·.id)).Nodup) :
    IsReport (jointMode members) members (reportOf members) where
  distinct := nodup_reportOf members
  mem_iff := fun k => mem_keys_reportOf.trans (one_lt_length_ownersOf h k)
  ascending := by
    intro r hr
    obtain ⟨o, -, -, -, htokens⟩ := exists_of_mem_reportOf hr
    rw [htokens]
    exact pairwise_mergeSort_on id _
  perm := by
    intro r hr
    obtain ⟨o, -, hname, -, htokens⟩ := exists_of_mem_reportOf hr
    rw [htokens, hname]
    exact List.mergeSort_perm _ _

theorem reportOf_eq_nil_iff (h : (members.map (·.id)).Nodup) :
    reportOf members = [] ↔ ¬ ∃ k, Collides (jointMode members) members k := by
  have hmem := (isReport_reportOf h).mem_iff
  constructor
  · rintro hnil ⟨k, hk⟩
    rw [hnil] at hmem
    cases (hmem k).2 hk
  · intro hnone
    rw [List.eq_nil_iff_forall_not_mem]
    intro r hr
    exact hnone ⟨_, (hmem _).1 (List.mem_map_of_mem hr)⟩

/-- A member alone does not collide with itself. -/
theorem not_collides_singleton (x : Advertiser σ) : ¬ ∃ k, Collides (jointMode [x]) [x] k := by
  rintro ⟨k, o, ho, p, hp, hdiffer, hko, hkp⟩
  obtain ⟨hox, hoi⟩ := mem_offers.1 ho
  obtain ⟨hpx, hpi⟩ := mem_offers.1 hp
  have hox := List.mem_singleton.1 hox
  have hpx := List.mem_singleton.1 hpx
  have hmode : jointMode [x] = x.catalog.mode := by
    rw [x.mode_eq]
    show modeOf [x.toMember] = _
    cases hx : x.provider.mode <;> simp [modeOf, hx]
  have hkey : ∀ i ∈ x.catalog.entries, Entry.key i = (jointMode [x]).fold i.name.value := by
    intro i hi
    rw [hmode, ← x.catalog.mode_of_mem i hi]
    rfl
  have hnodup : (x.catalog.entries.map Entry.key).Nodup :=
    List.pairwise_map.2 x.catalog.ascending.distinct
  rw [hox] at hoi
  rw [hpx] at hpi
  have heq : o.2 = p.2 := by
    refine List.inj_on_of_nodup_map hnodup hoi hpi ?_
    rw [hkey _ hoi, hkey _ hpi]
    exact hko.trans hkp.symm
  rcases hdiffer with hid | hinfo
  · exact hid (by rw [hox, hpx])
  · exact hinfo heq

/-- Where nothing collides no folded name occurs twice. -/
theorem nodup_keys_of_not_collides (h : (members.map (·.id)).Nodup) {mode : CaseMode}
    (hnone : ¬ ∃ k, Collides mode members k) :
    ((offers members).map (Offer.key mode)).Nodup := by
  refine List.pairwise_map.2 ((pairwise_offers h).imp_of_mem ?_)
  intro o p ho hp hdiffer hkey
  exact hnone ⟨p.key mode, o, ho, p, hp, hdiffer, hkey, rfl⟩

end Aggregate

end FunctionCatalog
