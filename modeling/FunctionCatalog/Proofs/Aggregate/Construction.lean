import FunctionCatalog.Proofs.Aggregate.Report
import FunctionCatalog.Proofs.ItemSet
import FunctionCatalog.Proofs.Resolution

/-
  FunctionCatalog: how an aggregate is made.
  The catalogs of the members are scanned once. A folded name that is advertised twice refuses the
  whole before any member is asked; otherwise each member is asked for each of its names, in order,
  and the answers are all that the aggregate looks up later.
-/

namespace FunctionCatalog.Aggregate

variable {σ : Type} {settings : Settings} {context : Value} {mode : CaseMode}

theorem distinct_of_nodup {ms : List (Member σ)} (h : (ms.map (·.id)).Nodup) :
    distinct ms = ms := by
  induction ms using List.reverseRecOn with
  | nil => rfl
  | append_singleton ms m ih =>
    rw [List.map_append, List.nodup_append] at h
    obtain ⟨hms, -, hdisjoint⟩ := h
    have hseen : ms.any (fun n => n.id == m.id) = false := by
      rw [List.any_eq_false]
      intro n hn heq
      exact hdisjoint _ (List.mem_map_of_mem hn) _ (List.mem_singleton_self _) (by simpa using heq)
    unfold distinct at ih ⊢
    rw [List.foldl_append, ih hms, List.foldl_cons, List.foldl_nil, hseen]
    rfl

/-! ## Asking for every name -/

/-- What is kept of an offer and the answer to it. -/
def keep (mode : CaseMode) (x : Offer σ × Value) : Owned σ :=
  ⟨x.1.key mode, .info x.1.2, x.1.1.provider, x.2⟩

/-- The answers are asked for in the order of the offers. -/
theorem exists_gives_resolveAll (settings : Settings) (context : Value) (mode : CaseMode)
    (os : List (Offer σ)) (m : Memory σ) :
    ∃ xs : List (Offer σ × Value), xs.map (·.1) = os ∧
      Resolution.Gives (Offer.resolve context) settings m xs (xs.map (keep mode))
        (resolveAll context (os.map (fun o => (o.key mode, [o.entry]))) settings m) := by
  induction os generalizing m with
  | nil => exact ⟨[], rfl, Resolution.gives_pure [] m⟩
  | cons o os ih =>
    obtain ⟨answer, -, hfirst⟩ :=
      Resolution.exists_gives_ask (Offer.resolve context) settings o m
    obtain ⟨xs, hxs, hall⟩ := hfirst.exists_bind
      (P := fun xs : List (Offer σ × Value) => xs.map (·.1) = os)
      (b := fun xs => keep mode (o, answer) :: xs.map (keep mode))
      (g := fun found => do
        let rest ← resolveAll context (os.map (fun o => (o.key mode, [o.entry])))
        pure (keep mode (o, found) :: rest))
      ⟨os.map (fun o => (o, .null)), by rw [List.map_map]; exact List.map_id os⟩
      (fun m' => by
        obtain ⟨xs, hxs, hrest⟩ := ih m'
        exact ⟨xs, hxs, hrest.map (keep mode (o, answer) :: ·)⟩)
    exact ⟨(o, answer) :: xs, by rw [List.map_cons, hxs], hall⟩

/-! ## The aggregate -/

/-- The aggregate of what was answered: its catalog holds the infos that were advertised, a name
without values finds the answer for it, a name with values is asked of its owner under the name that
the owner advertises, and no other name is known. -/
structure Unites (a : Aggregate σ) (mode : CaseMode) (xs : List (Offer σ × Value)) : Prop where
  mode_eq : a.mode = mode
  infos : a.infos.Holds mode (xs.map (fun x => x.1.2))
  found : ∀ x ∈ xs, ∀ (n : Name) (context : Value), mode.fold n.value = x.1.key mode →
    a.resolveName (.ofName n [] context) = pure x.2
  owner : ∀ x ∈ xs, ∀ (n : Name) (v : Value) (vs : List Value) (context : Value),
    mode.fold n.value = x.1.key mode →
    a.resolveName (.ofName n (v :: vs) context) =
      x.1.1.provider.resolveName (.ofName x.1.2.name (v :: vs) context)
  unknown : ∀ (n : Name) (vs : List Value) (context : Value),
    (∀ x ∈ xs, x.1.key mode ≠ mode.fold n.value) →
    a.resolveName (.ofName n vs context) = .fail (.unknown (.name n))

theorem resolveName_of_find (a : Aggregate σ) (n : Name) (vs : List Value) (context : Value) :
    a.resolveName (.ofName n vs context) =
      match a.owned.find? (fun o => o.key == a.mode.fold n.value) with
      | none => .fail (.unknown (.name n))
      | some o =>
        match vs with
        | [] => pure o.found
        | v :: vs => o.owner.resolveName (.ofName o.info.name (v :: vs) context) := by
  cases vs <;> rfl

theorem find?_keep {xs : List (Offer σ × Value)} {x : Offer σ × Value}
    (h : (xs.map (fun x => x.1.key mode)).Nodup) (hx : x ∈ xs) :
    (xs.map (keep mode)).find? (fun o => o.key == x.1.key mode) = some (keep mode x) := by
  induction xs with
  | nil => cases hx
  | cons y xs ih =>
    obtain ⟨hy, hxs⟩ := List.nodup_cons.1 h
    rw [List.map_cons]
    rcases List.mem_cons.1 hx with rfl | hx
    · exact List.find?_cons_of_pos (by simp [keep])
    · have hne : (keep mode y).key ≠ x.1.key mode := by
        intro heq
        exact hy (List.mem_map.2 ⟨x, hx, heq.symm⟩)
      rw [List.find?_cons_of_neg (by simpa using hne), ih hxs hx]

theorem unites_keep {members : List (Member σ)} {infos : ItemSet} {xs : List (Offer σ × Value)}
    (hnodup : (xs.map (fun x => x.1.key mode)).Nodup)
    (hinfos : infos.Holds mode (xs.map (fun x => x.1.2))) :
    Unites ⟨members, mode, xs.map (keep mode), infos⟩ mode xs where
  mode_eq := rfl
  infos := hinfos
  found := by
    intro x hx n context hkey
    have hfind := find?_keep hnodup hx
    rw [← hkey] at hfind
    rw [resolveName_of_find, hfind]
    rfl
  owner := by
    intro x hx n v vs context hkey
    have hfind := find?_keep hnodup hx
    rw [← hkey] at hfind
    rw [resolveName_of_find, hfind]
    rfl
  unknown := by
    intro n vs context hne
    have hfind : (xs.map (keep mode)).find? (fun o => o.key == mode.fold n.value) = none := by
      rw [List.find?_eq_none]
      intro o ho
      obtain ⟨x, hx, rfl⟩ := List.mem_map.1 ho
      simpa [keep] using hne x hx
    rw [resolveName_of_find, hfind]

/-! ## Construction -/

section Construction

variable {members : List (Advertiser σ)}

/-- What is done where nothing collides. -/
def unite (members : List (Advertiser σ)) (context : Value) : Resolution σ (Aggregate σ) := do
  let owned ← resolveAll context (owners (jointMode members) (members.map (·.toMember)))
  let settings ← Resolution.settings
  let infos ← .ofExcept (ItemSet.of settings .infos (jointMode members) (owned.map (·.info)))
  pure ⟨members.map (·.toMember), jointMode members, owned, infos⟩

theorem make_eq (context : Value) (hne : members ≠ []) (hids : (members.map (·.id)).Nodup) :
    make (members.map (·.toMember)) context =
      if (reportOf members).isEmpty then unite members context
      else .fail (.collisions (reportOf members)) := by
  have hids' : ((members.map (·.toMember)).map (·.id)).Nodup := by
    rwa [List.map_map]
  have hempty : (members.map (·.toMember)).isEmpty = false := by
    simpa using hne
  rw [make, distinct_of_nodup hids', ofDistinct, hempty]
  show (Resolution.ofExcept (collisions (owners (jointMode members)
    (members.map (·.toMember)))) >>= _) = _
  rw [collisions_owners]
  rfl

theorem make_of_report (settings : Settings) (context : Value) (hne : members ≠ [])
    (hids : (members.map (·.id)).Nodup) (hreport : reportOf members ≠ []) (m : Memory σ) :
    make (members.map (·.toMember)) context settings m =
      (.error (.collisions (reportOf members)), m) := by
  have hreport' : ¬ (reportOf members).isEmpty = true := by
    simpa using hreport
  rw [make_eq context hne hids, if_neg hreport']
  rfl

theorem unite_apply (settings : Settings) (context : Value) (members : List (Advertiser σ))
    (m : Memory σ) :
    unite members context settings m =
      match resolveAll context (owners (jointMode members) (members.map (·.toMember)))
        settings m with
      | (.error e, m') => (.error e, m')
      | (.ok owned, m') =>
        match ItemSet.of settings .infos (jointMode members) (owned.map (·.info)) with
        | .error e => (.error e, m')
        | .ok infos =>
          (.ok ⟨members.map (·.toMember), jointMode members, owned, infos⟩, m') := by
  rw [unite, Resolution.bind_apply]
  generalize resolveAll context (owners (jointMode members) (members.map (·.toMember)))
    settings m = r
  obtain ⟨e | owned, m'⟩ := r
  · rfl
  · dsimp only
    show (Resolution.ofExcept (ItemSet.of settings .infos (jointMode members)
      (owned.map (·.info))) >>= _) settings m' = _
    cases ItemSet.of settings .infos (jointMode members) (owned.map (·.info)) with
    | error e => rfl
    | ok infos => rfl

/-- What comes of a construction in which all members have answered: it fails exactly when a name
cannot be brought into the mode of the aggregate, and is refused for the first such name, in the
order in which the names were asked for. -/
structure Completes (settings : Settings) (mode : CaseMode) (xs : List (Offer σ × Value))
    (r : Except Failure (Aggregate σ)) : Prop where
  isOk_iff : (∃ a, r = .ok a) ↔ ∀ x ∈ xs, x.1.2.name.CanTake settings mode
  unites : ∀ a, r = .ok a → a.Unites mode xs
  rejected : ∀ e, r = .error e → ∃ i, firstUnfit? settings mode (xs.map (fun x => x.1.2)) = some i ∧
    e = .rejection (.name (i.name.lengthError settings))

theorem completes_of_infos (settings : Settings) (members : List (Member σ))
    {xs : List (Offer σ × Value)} (hnodup : (xs.map (fun x => x.1.key mode)).Nodup) (m : Memory σ) :
    ∃ r, (match ItemSet.of settings .infos mode ((xs.map (keep mode)).map (·.info)) with
        | .error e => (.error e, m)
        | .ok infos => (.ok ⟨members, mode, xs.map (keep mode), infos⟩, m) :
          Except Failure (Aggregate σ) × Memory σ) = (r, m) ∧
      Completes settings mode xs r := by
  have hinfos : (xs.map (keep mode)).map (·.info) = (xs.map (fun x => x.1.2)).map Item.info := by
    rw [List.map_map, List.map_map]
    rfl
  have hdistinct : ((xs.map (fun x => x.1.2)).map (fun i => mode.fold i.name.value)).Nodup := by
    rwa [List.map_map]
  have hcan : (∀ i ∈ xs.map (fun x => x.1.2), i.name.CanTake settings mode) ↔
      ∀ x ∈ xs, x.1.2.name.CanTake settings mode := List.forall_mem_map
  rw [hinfos]
  cases hunfit : firstUnfit? settings mode (xs.map (fun x => x.1.2)) with
  | some i =>
    rw [ItemSet.of_infos_of_firstUnfit? hunfit]
    refine ⟨_, rfl, ⟨fun hok => ?_, fun hall => ?_⟩, fun a ha => ?_, fun e he => ?_⟩
    · obtain ⟨a, ha⟩ := hok
      cases ha
    · rw [firstUnfit?_eq_none_iff.2 (hcan.2 hall)] at hunfit
      cases hunfit
    · cases ha
    · cases he
      exact ⟨i, hunfit, rfl⟩
  | none =>
    have hall := firstUnfit?_eq_none_iff.1 hunfit
    obtain ⟨s, hs, hholds⟩ := ItemSet.exists_of_infos hall hdistinct
    rw [hs]
    refine ⟨_, rfl, ⟨fun _ => hcan.1 hall, fun _ => ⟨_, rfl⟩⟩, fun a ha => ?_, fun e he => ?_⟩
    · cases ha
      exact unites_keep hnodup hholds
    · cases he

/-- Without a collision the members are asked for their names, and what they answer is all there is
to the outcome. -/
theorem exists_make_of_unique (settings : Settings) (context : Value) (hne : members ≠ [])
    (hids : (members.map (·.id)).Nodup)
    (hnone : ¬ ∃ k, Collides (jointMode members) members k) (m : Memory σ) :
    ∃ (xs : List (Offer σ × Value)) (failure : Option Failure) (m' : Memory σ),
      xs.map (·.1) = offers members ∧
      Resolution.Takes (Offer.resolve context) settings m xs failure m' ∧
      match failure with
      | some e => make (members.map (·.toMember)) context settings m = (.error e, m')
      | none => ∃ r, make (members.map (·.toMember)) context settings m = (r, m') ∧
          Completes settings (jointMode members) xs r := by
  have hkeys := nodup_keys_of_not_collides hids hnone
  have hempty : (reportOf members).isEmpty = true := by
    rw [(reportOf_eq_nil_iff hids).2 hnone]
    rfl
  have hmake := unite_apply settings context members m
  obtain ⟨xs, hxs, failure, m', htakes, hall⟩ := exists_gives_resolveAll settings context
    (jointMode members) (offers members) m
  rw [owners_of_nodup hkeys, hall] at hmake
  rw [make_eq context hne hids, if_pos hempty]
  refine ⟨xs, failure, m', hxs, htakes, ?_⟩
  cases failure with
  | some e => exact hmake
  | none =>
    have hnodup : (xs.map (fun x => x.1.key (jointMode members))).Nodup := by
      rw [← hxs, List.map_map] at hkeys
      exact hkeys
    obtain ⟨r, hr, hcompletes⟩ := completes_of_infos settings
      (members.map (·.toMember)) hnodup m'
    exact ⟨r, hmake.trans hr, hcompletes⟩

/-- Making an aggregate of distinct members. It compares names case-sensitively if and only if all
its members do. When two offers collide in its mode, no member is asked, and the report has one
line for each folded name that collides. Otherwise every offer is asked for once, in the order of
the members and of their catalogs, up to the first failure, which is then the outcome. When none
fails the aggregate unites the answers, unless a name is too long to be brought into its mode; then
it is refused for the first such name. -/
theorem make_outcome (settings : Settings) (context : Value) (m : Memory σ)
    (members : List (Advertiser σ)) (hne : members ≠ []) (hids : (members.map (·.id)).Nodup) :
    (jointMode members = .sensitive ↔ ∀ x ∈ members, x.provider.mode = .sensitive) ∧
    ((∃ k, Collides (jointMode members) members k) →
      ∃ report, IsReport (jointMode members) members report ∧
        make (members.map (·.toMember)) context settings m = (.error (.collisions report), m)) ∧
    ((¬ ∃ k, Collides (jointMode members) members k) →
      ∃ (xs : List (Offer σ × Value)) (failure : Option Failure) (m' : Memory σ),
        xs.map (·.1) = offers members ∧
        Resolution.Takes (Offer.resolve context) settings m xs failure m' ∧
        match failure with
        | some e => make (members.map (·.toMember)) context settings m = (.error e, m')
        | none => ∃ r, make (members.map (·.toMember)) context settings m = (r, m') ∧
            Completes settings (jointMode members) xs r) := by
  refine ⟨?_, fun hcollides => ?_, fun hnone => exists_make_of_unique settings context hne hids
    hnone m⟩
  · rw [modeOf_eq_sensitive, List.forall_mem_map]
  · have hreport : reportOf members ≠ [] := fun hnil =>
      (reportOf_eq_nil_iff hids).1 hnil hcollides
    exact ⟨reportOf members, isReport_reportOf hids,
      make_of_report settings context hne hids hreport m⟩

/-- Two members with the same letters are refused; one of them alone is asked for its letters. -/
theorem make_outcome_lettered :
    (∃ report, IsReport .insensitive
        [lettered Unit (.sensitive, 0), lettered Unit (.insensitive, 1)] report ∧
      make [(lettered Unit (.sensitive, 0)).toMember, (lettered Unit (.insensitive, 1)).toMember]
        .null {} ⟨0, ()⟩ = (.error (.collisions report), ⟨0, ()⟩)) ∧
    ∃ (xs : List (Offer Unit × Value)) (failure : Option Failure) (m' : Memory Unit),
      xs.map (·.1) = offers [lettered Unit (.sensitive, 0)] ∧
      Resolution.Takes (Offer.resolve .null) {} ⟨0, ()⟩ xs failure m' := by
  obtain ⟨-, hrefused, -⟩ := make_outcome {} .null ⟨0, ()⟩
    [lettered Unit (.sensitive, 0), lettered Unit (.insensitive, 1)] (by simp) (by decide)
  obtain ⟨-, -, hasked⟩ := make_outcome {} .null ⟨0, ()⟩ [lettered Unit (.sensitive, 0)]
    (by simp) (by decide)
  constructor
  · refine hrefused ⟨"a", (lettered Unit (.sensitive, 0), lowerA), ?_,
      (lettered Unit (.insensitive, 1), foldedA), ?_, .inl (by decide), by decide, by decide⟩
    · exact mem_offers.2 ⟨List.mem_cons_self, List.mem_cons_of_mem _ List.mem_cons_self⟩
    · exact mem_offers.2 ⟨List.mem_cons_of_mem _ List.mem_cons_self, List.mem_cons_self⟩
  · obtain ⟨xs, failure, m', hxs, htakes, -⟩ := hasked (not_collides_singleton _)
    exact ⟨xs, failure, m', hxs, htakes⟩

end Construction

/-! ## A limit that has been lowered -/

def absInfo : Info :=
  letter .sensitive "abs" "u/abs" (by decide) (by decide)

def ceilInfo : Info :=
  letter .sensitive "ceil" "u/ceil" (by decide) (by decide)

/-- A short and a longer name. -/
def roundings : InfoSet :=
  pairCatalog .sensitive absInfo ceilInfo rfl rfl (by decide)

/-- A member with a short and a longer name that answers any call with its name. -/
def rounding : Advertiser Unit where
  id := 0
  provider := .ofNames .sensitive roundings.asItems (fun call => pure call.name)
  catalog := roundings
  infos_eq := rfl
  mode_eq := rfl

/-- A member that advertises nothing. -/
def silent : Advertiser Unit where
  id := 1
  provider := .empty .insensitive
  catalog := .empty .insensitive
  infos_eq := rfl
  mode_eq := rfl

theorem offers_rounding :
    offers [rounding, silent] = [(rounding, absInfo), (rounding, ceilInfo)] :=
  rfl

theorem not_collides_rounding :
    ¬ ∃ k, Collides (jointMode [rounding, silent]) [rounding, silent] k := by
  rintro ⟨k, o, ho, p, hp, hdiffer, hko, hkp⟩
  rw [offers_rounding] at ho hp
  simp only [List.mem_cons, List.not_mem_nil, or_false] at ho hp
  have hkeys : Offer.key (jointMode [rounding, silent]) (rounding, absInfo) ≠
      Offer.key (jointMode [rounding, silent]) (rounding, ceilInfo) := by
    decide
  rcases ho with rfl | rfl <;> rcases hp with rfl | rfl
  · simp at hdiffer
  · exact hkeys (hko.trans hkp.symm)
  · exact hkeys (hkp.trans hko.symm)
  · simp at hdiffer

/-- Each offer is answered. -/
theorem resolve_rounding {o : Offer Unit} (ho : o ∈ offers [rounding, silent])
    (settings : Settings) (m : Memory Unit) :
    (o.resolve .null settings m).1 = .ok (.name o.2.name) := by
  simp only [offers_rounding, List.mem_cons, List.not_mem_nil, or_false] at ho
  rcases ho with rfl | rfl <;> rfl

/-- Members that do not collide and all of whose answers are there make no aggregate where a name
has become too long to be brought into its mode. -/
theorem rejected_after_answers :
    (¬ ∃ k, Collides (jointMode [rounding, silent]) [rounding, silent] k) ∧
    ∃ (xs : List (Offer Unit × Value)) (m' : Memory Unit),
      xs.map (·.1) = offers [rounding, silent] ∧
      Resolution.Takes (Offer.resolve .null) { nameLimit := 3 } ⟨0, ()⟩ xs none m' ∧
      make ([rounding, silent].map (·.toMember)) .null { nameLimit := 3 } ⟨0, ()⟩ =
        (.error (.rejection (.name ⟨"ceil", 3, .tooLong 4 3⟩)), m') := by
  obtain ⟨xs, failure, m', hxs, htakes, hmake⟩ := exists_make_of_unique { nameLimit := 3 } .null
    (List.cons_ne_nil _ _) (by decide) not_collides_rounding ⟨0, ()⟩
  refine ⟨not_collides_rounding, xs, m', ?_⟩
  cases failure with
  | some e =>
    obtain ⟨x, hx, m₁, hask⟩ := htakes.exists_failed
    rw [resolve_rounding (hxs ▸ List.mem_map_of_mem hx)] at hask
    cases hask
  | none =>
    obtain ⟨r, hr, hcompletes⟩ := hmake
    have hinfos : xs.map (fun x => x.1.2) = [absInfo, ceilInfo] := by
      have hoffers := congrArg (List.map Prod.snd) (hxs.trans offers_rounding)
      rwa [List.map_map] at hoffers
    have hunfit : firstUnfit? { nameLimit := 3 } (jointMode [rounding, silent])
        [absInfo, ceilInfo] = some ceilInfo := rfl
    cases r with
    | ok a =>
      have hcan : ∀ i ∈ xs.map (fun x => x.1.2), i.name.CanTake { nameLimit := 3 }
          (jointMode [rounding, silent]) :=
        List.forall_mem_map.2 (hcompletes.isOk_iff.1 ⟨a, rfl⟩)
      rw [hinfos, ← firstUnfit?_eq_none_iff, hunfit] at hcan
      cases hcan
    | error e =>
      obtain ⟨i, hi, rfl⟩ := hcompletes.rejected e rfl
      rw [hinfos, hunfit] at hi
      obtain rfl := Option.some.inj hi
      exact ⟨hxs, htakes, hr⟩

end FunctionCatalog.Aggregate
