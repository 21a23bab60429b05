import FunctionCatalog.Proofs.ItemSet.Building
import FunctionCatalog.Proofs.Name.Order
import FunctionCatalog.Provider.Leaf

/-
  FunctionCatalog: functions of one name in a leaf.
  A leaf refuses functions if two of them have names that are equal in its mode, and only then
  (`ofFunctions_of_not_nodup`, `ofFunctions_of_nodup`). It reports a function whenever another one of
  its name has come before (`filter_repeated`): so each such name is in the report, in order, but a
  name of three functions is there twice (`Reports.once_iff`). A leaf that is made has one info for
  each function (`exists_advertises`). Before all that stands whether the names can be brought into
  the mode at all, and behind it whether the base of the tokens may stand in a token.
-/

namespace FunctionCatalog

variable {settings : Settings} {mode : CaseMode} {url : String} {f : NamedFunction}
  {functions : List NamedFunction} {names : List Name}

/-! ## Functions in another mode -/

namespace NamedFunction

/-- The function with its name in a mode. -/
def inMode (mode : CaseMode) (f : NamedFunction) : NamedFunction :=
  if f.name.mode = mode then f else f.withName (f.name.inMode mode)

theorem name_inMode (mode : CaseMode) (f : NamedFunction) :
    (f.inMode mode).name.value = f.name.value ∧ (f.inMode mode).name.mode = mode := by
  unfold inMode
  by_cases hmode : f.name.mode = mode
  · rw [if_pos hmode]
    exact ⟨rfl, hmode⟩
  · rw [if_neg hmode]
    have hother : (f.name.inMode mode).alike f.name = false := by
      simp [Name.alike, Name.inMode, Ne.symm hmode]
    rw [withName, hother]
    exact ⟨rfl, rfl⟩

theorem key_inMode (mode : CaseMode) (f : NamedFunction) :
    (f.inMode mode).name.key = mode.fold f.name.value := by
  obtain ⟨hvalue, hmode⟩ := f.name_inMode mode
  rw [Name.key, hvalue, hmode]

end NamedFunction

theorem Item.withMode_function (h : f.name.CanTake settings mode) :
    (Item.function f).withMode settings mode = .ok (.function (f.inMode mode)) := by
  have hname : (Item.function f).name = f.name := rfl
  rw [withMode, hname, Name.withMode]
  by_cases hmode : f.name.mode = mode
  · have hself : f.withName f.name = f := if_pos f.name.alike_refl
    rw [if_pos hmode, NamedFunction.inMode, if_pos hmode]
    exact congrArg (fun g => Except.ok (Item.function g)) hself
  · rw [if_neg hmode, Name.make_of_fits (h.resolve_left hmode), NamedFunction.inMode, if_neg hmode]
    rfl

namespace Leaf

/-- What comes of making a leaf of functions. -/
def ofFunctions (settings : Settings) (mode : CaseMode) (url : String)
    (functions : List NamedFunction) : Except Failure Leaf :=
  make settings mode url (functions.map (fun f => .item (.function f)))

/-- The names of functions as a leaf compares them. -/
def keys (mode : CaseMode) (functions : List NamedFunction) : List String :=
  functions.map (fun f => mode.fold f.name.value)

/-- The names of functions in the mode of a leaf. -/
def namesIn (mode : CaseMode) (functions : List NamedFunction) : List Name :=
  functions.map (fun f => (f.inMode mode).name)

/-- The functions as a leaf keeps them. -/
def itemsIn (mode : CaseMode) (functions : List NamedFunction) : List Item :=
  functions.map (fun f => .function (f.inMode mode))

theorem map_name_itemsIn (mode : CaseMode) (functions : List NamedFunction) :
    (itemsIn mode functions).map Item.name = namesIn mode functions :=
  List.map_map

theorem mode_of_mem_namesIn {n : Name} (h : n ∈ namesIn mode functions) : n.mode = mode := by
  obtain ⟨f, -, rfl⟩ := List.mem_map.1 h
  exact (f.name_inMode mode).2

/-- The functions of a leaf are those given, with their names in its mode. -/
theorem functionsOf_functions (hne : functions ≠ [])
    (hcan : ∀ f ∈ functions, f.name.CanTake settings mode) :
    functionsOf settings mode (functions.map (fun f => .item (.function f))) =
      .ok (itemsIn mode functions) := by
  have hsome : (functions.map (fun f => Value.item (.function f))).isEmpty = false := by
    simpa using hne
  rw [functionsOf, hsome, if_neg Bool.false_ne_true, List.mapM_map]
  refine mapM_eq_ok_map fun f hf => ?_
  show Failure.ofRejection ((Item.function f).withMode settings mode) = _
  rw [Item.withMode_function (hcan f hf)]
  rfl

/-- The first name that cannot be brought into the mode is what functions are refused for. -/
theorem ofFunctions_of_unfit
    (h : functions.find? (fun f => !decide (f.name.CanTake settings mode)) = some f) :
    ofFunctions settings mode url functions =
      .error (.rejection (.name (f.name.lengthError settings))) := by
  obtain ⟨hcannot, before, after, rfl, hbefore⟩ := List.find?_eq_some_iff_append.1 h
  rw [Bool.not_eq_true', decide_eq_false_iff_not] at hcannot
  have hunfit : functionsOf settings mode
      ((before ++ f :: after).map (fun f => .item (.function f))) =
        .error (.rejection (.name (f.name.lengthError settings))) := by
    rw [functionsOf, if_neg (by simp), List.map_append, List.map_cons]
    refine mapM_eq_error (fun v hv => ?_) ?_
    · obtain ⟨g, hg, rfl⟩ := List.mem_map.1 hv
      have hcan := hbefore g hg
      rw [Bool.not_not, decide_eq_true_eq] at hcan
      refine ⟨.function (g.inMode mode), ?_⟩
      show Failure.ofRejection ((Item.function g).withMode settings mode) = _
      rw [Item.withMode_function hcan]
      rfl
    · have hitem : ¬ (Item.function f).name.CanTake settings mode := hcannot
      show Failure.ofRejection ((Item.function f).withMode settings mode) = _
      rw [Item.withMode_of_not_canTake hitem]
      rfl
  rw [ofFunctions, make, hunfit]
  rfl

/-! ## Names that come again -/

/-- Of a folded name all are repeated but the first, and that one too if it has been seen. -/
theorem filter_repeated (seen names : List Name) (key : String) :
    (repeated seen names).filter (fun n => n.key == key) =
      if seen.any (fun m => m.key == key) then names.filter (fun n => n.key == key)
      else (names.filter (fun n => n.key == key)).tail := by
  induction names generalizing seen with
  | nil => simp [repeated]
  | cons n names ih =>
    rw [repeated]
    by_cases hkey : n.key = key
    · subst hkey
      by_cases hseen : seen.any (fun m => m.key == n.key) = true
      · rw [if_pos hseen, List.filter_cons_of_pos (by simp), ih, if_pos hseen, if_pos hseen,
          List.filter_cons_of_pos (by simp)]
      · rw [if_neg hseen, ih, if_pos (by simp), if_neg hseen, List.filter_cons_of_pos (by simp),
          List.tail_cons]
    · have hother : (n.key == key) = false := beq_eq_false_iff_ne.2 hkey
      rw [List.filter_cons_of_neg (by simp [hkey])]
      split
      · rw [List.filter_cons_of_neg (by simp [hkey]), ih]
      · rw [ih, List.any_append]
        simp [hother]

/-- The report has each function whose name another one has had before, in the order of their names
and then of the functions. -/
structure Reports (mode : CaseMode) (functions : List NamedFunction) (names : List Name) :
    Prop where
  inMode : ∀ n ∈ names, n.mode = mode
  ascending : names.Pairwise (fun m n => n.before m = false)
  again : ∀ key, (names.filter (fun n => n.key == key)).map (·.value) =
    ((functions.filter (fun f => mode.fold f.name.value == key)).map (·.name.value)).tail

/-- The report has each name of several functions once, in order. -/
structure ReportsOnce (mode : CaseMode) (functions : List NamedFunction) (names : List Name) :
    Prop where
  inMode : ∀ n ∈ names, n.mode = mode
  ascending : names.Pairwise (fun m n => m.before n = true)
  several : ∀ key, (∃ n ∈ names, n.key = key) ↔ 1 < (keys mode functions).count key

theorem mem_of_mem_repeated {seen : List Name} {n : Name} (h : n ∈ repeated seen names) :
    n ∈ names := by
  have hmem : n ∈ (repeated seen names).filter (fun m => m.key == n.key) :=
    List.mem_filter.2 ⟨h, by simp⟩
  rw [filter_repeated] at hmem
  split at hmem
  · exact (List.mem_filter.1 hmem).1
  · exact (List.mem_filter.1 (List.mem_of_mem_tail hmem)).1

/-- What a leaf reports. -/
theorem reports_repeated (mode : CaseMode) (functions : List NamedFunction) :
    Reports mode functions (Name.sortOn id (repeated [] (namesIn mode functions))) := by
  have hmode : ∀ n ∈ repeated [] (namesIn mode functions), (id n).mode = mode := fun n hn =>
    mode_of_mem_namesIn (mem_of_mem_repeated hn)
  have hperm := Name.sortOn_perm id (repeated [] (namesIn mode functions))
  have hinMode : ∀ n ∈ Name.sortOn id (repeated [] (namesIn mode functions)), n.mode = mode :=
    fun n hn => hmode n (hperm.subset hn)
  refine ⟨hinMode, ?_, fun key => ?_⟩
  · refine (Name.pairwise_sortOn hmode).imp_of_mem fun {m n} hm hn hle => ?_
    rw [← Bool.not_eq_true, Name.before_iff_key ((hinMode n hn).trans (hinMode m hm).symm),
      String.not_lt, Name.key, Name.key, hinMode m hm, hinMode n hn]
    exact hle
  · have hstable : (Name.sortOn id (repeated [] (namesIn mode functions))).filter
        (fun n => n.key == key) = _ := Name.filter_sortOn hmode key
    have hown : (namesIn mode functions).filter (fun n => n.key == key) =
        namesIn mode (functions.filter (fun f => mode.fold f.name.value == key)) := by
      rw [namesIn, List.filter_map, namesIn]
      exact congrArg _ (List.filter_congr fun f _ => by rw [Function.comp, f.key_inMode])
    have hrepeated : (repeated [] (namesIn mode functions)).filter (fun n => n.key == key) = _ :=
      filter_repeated [] _ key
    rw [hstable]
    show ((repeated [] (namesIn mode functions)).filter (fun n => n.key == key)).map _ = _
    rw [hrepeated, if_neg (by simp), List.map_tail, hown, namesIn, List.map_map]
    exact congrArg List.tail (List.map_congr_left fun f _ => (f.name_inMode mode).1)

namespace Reports

variable (h : Reports mode functions names)

include h

/-- A name is reported once less than there are functions of it. -/
theorem count_eq (key : String) :
    (names.map Name.key).count key = (keys mode functions).count key - 1 := by
  have hlength := congrArg List.length (h.again key)
  rw [List.length_map, List.length_tail, List.length_map] at hlength
  rw [List.count_eq_length_filter, List.count_eq_length_filter, keys, List.filter_map,
    List.filter_map, List.length_map, List.length_map]
  exact hlength

theorem several (key : String) :
    (∃ n ∈ names, n.key = key) ↔ 1 < (keys mode functions).count key := by
  rw [← List.mem_map, ← List.count_pos_iff, h.count_eq]
  omega

/-- Nothing is reported exactly if all functions have names of their own. -/
theorem eq_nil_iff : names = [] ↔ (keys mode functions).Nodup := by
  rw [List.nodup_iff_count_le_one]
  constructor
  · rintro rfl key
    have hseveral := (h.several key).not.1 (by simp)
    omega
  · intro hone
    refine List.eq_nil_iff_forall_not_mem.2 fun n hn => ?_
    have hseveral := (h.several n.key).1 ⟨n, hn, rfl⟩
    have hcount := hone n.key
    omega

theorem nodup_iff : (names.map Name.key).Nodup ↔ ∀ key, (keys mode functions).count key ≤ 2 := by
  rw [List.nodup_iff_count_le_one]
  refine forall_congr' fun key => ?_
  rw [h.count_eq]
  omega

/-- Each name is reported once exactly if no three functions share one. -/
theorem once_iff :
    ReportsOnce mode functions names ↔ ∀ key, (keys mode functions).count key ≤ 2 := by
  rw [← h.nodup_iff]
  constructor
  · intro honce
    exact List.pairwise_map.2 ((pairwise_before_iff h.inMode).1 honce.ascending).distinct
  · intro hnodup
    refine ⟨h.inMode, ?_, h.several⟩
    have hboth := h.ascending.and (List.pairwise_map.1 hnodup)
    refine hboth.imp_of_mem fun {m n} hm hn hmn => ?_
    have hmode := (h.inMode m hm).trans (h.inMode n hn).symm
    rw [← Bool.not_eq_true, Name.before_iff_key hmode.symm, String.not_lt] at hmn
    rw [Name.before_iff_key hmode, ← String.not_le]
    exact fun hle => hmn.2 (String.le_antisymm hmn.1 hle)

end Reports

/-! ## Tokens -/

/-- A text with a slash at its end, which is put there if there is none. -/
inductive Slashed : String → String → Prop
  | kept {url : String} (h : url.toList.getLast? = some '/') : Slashed url url
  | added {url : String} (h : url.toList.getLast? ≠ some '/') : Slashed url (url ++ "/")

theorem slashed_base (url : String) : Slashed url (base url) := by
  unfold base
  by_cases h : url.toList.getLast? = some '/'
  · rw [if_pos h]
    exact .kept h
  · rw [if_neg h]
    exact .added h

/-- A text without white space and separators, which may be empty. -/
def IsProper (url : String) : Prop :=
  url = "" ∨ isToken infoReserved url.toList = true

instance (url : String) : Decidable (IsProper url) :=
  inferInstanceAs (Decidable (_ ∨ _))

theorem isProper_iff :
    IsProper url ↔ ∀ c ∈ url.toList, Text.isBlank c = false ∧ c ∉ infoReserved := by
  rw [IsProper, isToken_iff]
  constructor
  · rintro (rfl | ⟨-, hall⟩)
    · rintro c ⟨⟩
    · exact hall
  · intro hall
    by_cases hempty : url = ""
    · exact .inl hempty
    · exact .inr ⟨by simpa using hempty, hall⟩

theorem toList_base (url : String) : ∃ slash, (base url).toList = url.toList ++ slash ∧
    ∀ c ∈ slash, Text.isBlank c = false ∧ c ∉ infoReserved := by
  unfold base
  split
  · exact ⟨[], (List.append_nil _).symm, by simp⟩
  · refine ⟨['/'], String.toList_append, fun c hc => ?_⟩
    obtain rfl := List.mem_singleton.1 hc
    exact ⟨by decide, by decide⟩

/-- Only the base of a token can be wrong: names and slashes may stand in tokens. -/
theorem isToken_append_iff (url : String) (n : Name) :
    isToken infoReserved (base url ++ n.value).toList = true ↔ IsProper url := by
  obtain ⟨slash, hbase, hslash⟩ := toList_base url
  have hname : ∀ c ∈ n.value.toList, Text.isBlank c = false ∧ c ∉ infoReserved := by
    intro c hc
    have hpart := isNamePart_of_isName n.isName_value c hc
    refine ⟨not_isBlank_of_isNamePart hpart, fun hcomma => ?_⟩
    rw [List.mem_singleton.1 hcomma] at hpart
    exact absurd hpart (by decide)
  rw [isToken_iff, isProper_iff, String.toList_append, hbase]
  constructor
  · rintro ⟨-, hall⟩ c hc
    exact hall c (List.mem_append_left _ (List.mem_append_left _ hc))
  · intro hall
    refine ⟨List.append_ne_nil_of_right_ne_nil _ (ne_nil_of_isName n.isName_value), fun c hc => ?_⟩
    rcases List.mem_append.1 hc with hc | hc
    · rcases List.mem_append.1 hc with hc | hc
      · exact hall c hc
      · exact hslash c hc
    · exact hname c hc

/-- What a leaf of a proper base advertises for a name. -/
def advertised (h : IsProper url) (n : Name) : Info where
  name := n
  token := base url ++ n.value
  isToken_token := (isToken_append_iff url n).2 h

theorem info_of_isProper (h : IsProper url) (n : Name) : info url n = .ok (advertised h n) :=
  dif_pos _

theorem info_of_not_isProper (h : ¬ IsProper url) (n : Name) :
    info url n = .error (.token (base url ++ n.value)) :=
  dif_neg fun htoken => h ((isToken_append_iff url n).1 htoken)

/-! ## Outcomes -/

/-- The catalog has one info for each function: its name as it is written, behind the base in the
token. -/
structure Advertises (mode : CaseMode) (url : String) (functions : List NamedFunction)
    (leaf : Leaf) : Prop where
  mode : leaf.infos.mode = mode
  infos : ∃ base, Slashed url base ∧
    (leaf.infos.entries.map (fun i => (i.name.value, i.token))).Perm
      (functions.map (fun f => (f.name.value, base ++ f.name.value)))

/-- Nothing is repeated exactly if all functions have names of their own. -/
theorem repeated_eq_nil_iff :
    repeated [] (namesIn mode functions) = [] ↔ (keys mode functions).Nodup := by
  have hlength := (Name.sortOn_perm id (repeated [] (namesIn mode functions))).length_eq
  rw [← (reports_repeated mode functions).eq_nil_iff, ← List.length_eq_zero_iff, ← hlength,
    List.length_eq_zero_iff]

/-- The infos of functions with names of their own make a catalog, whatever their order. -/
theorem exists_catalog (settings : Settings) (hnodup : (keys mode functions).Nodup)
    (hurl : IsProper url) :
    ∃ catalog, NamedSet.of settings mode ((namesIn mode functions).map (advertised hurl)) =
        .ok catalog ∧ catalog.mode = mode ∧
      (catalog.entries.map (fun i => (i.name.value, i.token))).Perm
        (functions.map (fun f => (f.name.value, base url ++ f.name.value))) := by
  have hmodes : ∀ i ∈ (namesIn mode functions).map (advertised hurl), i.name.mode = mode := by
    intro i hi
    obtain ⟨n, hn, rfl⟩ := List.mem_map.1 hi
    exact mode_of_mem_namesIn hn
  have hkeys : ((namesIn mode functions).map (advertised hurl)).map Entry.key =
      keys mode functions := by
    rw [namesIn, keys, List.map_map, List.map_map]
    exact List.map_congr_left fun f _ => f.key_inMode mode
  obtain ⟨catalog, hof, hmode, hperm, -⟩ :=
    NamedSet.exists_of_nodup settings hmodes (fun i _ => i.same_refl) (by rwa [hkeys])
  refine ⟨catalog, hof, hmode, (hperm.map _).trans (.of_eq ?_)⟩
  rw [namesIn, List.map_map, List.map_map]
  refine List.map_congr_left fun f _ => ?_
  have hvalue := (f.name_inMode mode).1
  exact Prod.ext hvalue (congrArg (base url ++ ·) hvalue)

section Outcomes

variable (hne : functions ≠ []) (hcan : ∀ f ∈ functions, f.name.CanTake settings mode)
  (url : String)

include hne hcan

/-- Functions whose names can be brought into the mode are looked through for repeated names. -/
theorem ofFunctions_eq :
    ofFunctions settings mode url functions =
      match repeated [] (namesIn mode functions) with
      | [] => do
        let infos ← Failure.ofRejection ((namesIn mode functions).mapM (info url))
        let infos ← Failure.ofRejection (NamedSet.of settings mode infos)
        .ok ⟨mode, (itemsIn mode functions).map (fun f => (f.name.key, f)), infos⟩
      | names => .error (.rejection (.duplicateNames (Name.sortOn id names))) := by
  rw [ofFunctions, make, functionsOf_functions hne hcan, ← map_name_itemsIn, List.mapM_map]
  rfl

theorem ofFunctions_of_not_nodup (hnodup : ¬ (keys mode functions).Nodup) :
    ∃ names, ofFunctions settings mode url functions =
      .error (.rejection (.duplicateNames names)) ∧ Reports mode functions names := by
  refine ⟨_, ?_, reports_repeated mode functions⟩
  rw [ofFunctions_eq hne hcan]
  split
  · next hnil => exact absurd (repeated_eq_nil_iff.1 hnil) hnodup
  · rfl

variable (hnodup : (keys mode functions).Nodup)

include hnodup

theorem ofFunctions_of_nodup :
    ofFunctions settings mode url functions = (do
      let infos ← Failure.ofRejection ((namesIn mode functions).mapM (info url))
      let infos ← Failure.ofRejection (NamedSet.of settings mode infos)
      .ok ⟨mode, (itemsIn mode functions).map (fun f => (f.name.key, f)), infos⟩) := by
  rw [ofFunctions_eq hne hcan, repeated_eq_nil_iff.2 hnodup]

/-- A leaf of a proper base is made of functions with names of their own. -/
theorem exists_advertises (hurl : IsProper url) :
    ∃ leaf, ofFunctions settings mode url functions = .ok leaf ∧
      Advertises mode url functions leaf := by
  obtain ⟨catalog, hof, hmode, hperm⟩ := exists_catalog settings hnodup hurl
  have hinfos : (namesIn mode functions).mapM (info url) =
      .ok ((namesIn mode functions).map (advertised hurl)) :=
    mapM_eq_ok_map fun n _ => info_of_isProper hurl n
  refine ⟨⟨mode, (itemsIn mode functions).map (fun f => (f.name.key, f)), catalog⟩, ?_, hmode,
    base url, slashed_base url, hperm⟩
  rw [ofFunctions_of_nodup hne hcan url hnodup, hinfos]
  show (Failure.ofRejection (NamedSet.of settings mode _) >>= _) = _
  rw [hof]
  rfl

/-- The first token of any other base is what functions are refused for. -/
theorem ofFunctions_of_not_isProper (hurl : ¬ IsProper url) :
    ∃ b, Slashed url b ∧ ∃ f ∈ functions.head?,
      ofFunctions settings mode url functions =
        .error (.rejection (.token (b ++ f.name.value))) := by
  refine ⟨base url, slashed_base url, ?_⟩
  rw [ofFunctions_of_nodup hne hcan url hnodup]
  obtain ⟨f, rest, rfl⟩ := List.exists_cons_of_ne_nil hne
  refine ⟨f, rfl, ?_⟩
  have hinfos : (namesIn mode (f :: rest)).mapM (info url) =
      .error (.token (base url ++ f.name.value)) := by
    rw [← (f.name_inMode mode).1]
    show ((f.inMode mode).name :: namesIn mode rest).mapM (info url) = _
    rw [List.mapM_cons, info_of_not_isProper hurl]
    rfl
  rw [hinfos]
  rfl

omit hnodup in
/-- If names are reported, some come again. -/
theorem reports_of_duplicateNames (h : ofFunctions settings mode url functions =
    .error (.rejection (.duplicateNames names))) :
    ¬ (keys mode functions).Nodup ∧ Reports mode functions names := by
  by_cases hnodup : (keys mode functions).Nodup
  · by_cases hurl : IsProper url
    · obtain ⟨leaf, hleaf, -⟩ := exists_advertises hne hcan url hnodup hurl
      rw [hleaf] at h
      cases h
    · obtain ⟨b, -, f, -, htoken⟩ := ofFunctions_of_not_isProper hne hcan url hnodup hurl
      rw [htoken] at h
      cases h
  · obtain ⟨names', herror, hreports⟩ := ofFunctions_of_not_nodup hne hcan url hnodup
    rw [herror] at h
    cases h
    exact ⟨hnodup, hreports⟩

end Outcomes

/-- What comes of functions: the first name that cannot be brought into the mode is refused, then
all names that come again, and then the first token if it is none. Else each function is advertised.
Every name that comes again is reported, and once if there are two functions of it. -/
theorem duplicate_functions_refused (settings : Settings) (mode : CaseMode) (url : String)
    (hne : functions ≠ []) :
    (∀ f, functions.find? (fun f => !decide (f.name.CanTake settings mode)) = some f →
      ofFunctions settings mode url functions =
        .error (.rejection (.name (f.name.lengthError settings)))) ∧
    ((∀ f ∈ functions, f.name.CanTake settings mode) →
      ((∃ names, ofFunctions settings mode url functions =
          .error (.rejection (.duplicateNames names))) ↔ ¬ (keys mode functions).Nodup) ∧
      (∀ names, ofFunctions settings mode url functions =
          .error (.rejection (.duplicateNames names)) →
        Reports mode functions names ∧
          (ReportsOnce mode functions names ↔ ∀ key, (keys mode functions).count key ≤ 2)) ∧
      ((keys mode functions).Nodup →
        (IsProper url → ∃ leaf, ofFunctions settings mode url functions = .ok leaf ∧
          Advertises mode url functions leaf) ∧
        (¬ IsProper url → ∃ b, Slashed url b ∧ ∃ f ∈ functions.head?,
          ofFunctions settings mode url functions =
            .error (.rejection (.token (b ++ f.name.value)))))) := by
  refine ⟨fun f hfind => ofFunctions_of_unfit hfind, fun hcan => ⟨⟨?_, ?_⟩, ?_, ?_⟩⟩
  · rintro ⟨names, herror⟩
    exact (reports_of_duplicateNames hne hcan url herror).1
  · intro hnodup
    obtain ⟨names, herror, -⟩ := ofFunctions_of_not_nodup hne hcan url hnodup
    exact ⟨names, herror⟩
  · intro names herror
    have hreports := (reports_of_duplicateNames hne hcan url herror).2
    exact ⟨hreports, hreports.once_iff⟩
  · exact fun hnodup => ⟨exists_advertises hne hcan url hnodup,
      ofFunctions_of_not_isProper hne hcan url hnodup⟩

/-- A function of an operation, its name in the mode that tells letters' case apart. -/
def plain (text : String) (h : isName text.toList = true) (operation : Operation) :
    NamedFunction :=
  .make { value := text, mode := .sensitive, isName_value := h } operation []

def letters : List NamedFunction :=
  [plain "a" (Eq.refl true) .echo, plain "B" (Eq.refl true) .abs,
    plain "A" (Eq.refl true) .max]

/-- Letters that come again in the other case are refused, unless the case tells them apart. -/
theorem letters_refused_without_case :
    (∃ names, ofFunctions {} .insensitive "u" letters =
        .error (.rejection (.duplicateNames names)) ∧
      ReportsOnce .insensitive letters names) ∧
    (∃ leaf, ofFunctions {} .sensitive "u" letters = .ok leaf ∧
      Advertises .sensitive "u" letters leaf) := by
  have hne : letters ≠ [] := List.cons_ne_nil _ _
  constructor
  · have hkeys : keys .insensitive letters = ["a", "b", "a"] := by decide
    obtain ⟨hrefused, hreport, -⟩ :=
      (duplicate_functions_refused {} .insensitive "u" hne).2 (by decide)
    obtain ⟨names, herror⟩ := hrefused.2 (by rw [hkeys]; decide)
    refine ⟨names, herror, (hreport names herror).2.2 fun key => ?_⟩
    rw [hkeys]
    grind
  · have hadvertised := ((duplicate_functions_refused {} .sensitive "u" hne).2 (by decide)).2.2
    exact (hadvertised (by decide)).1 (by decide)

def letterA : Name := { value := "a", mode := .sensitive, isName_value := Eq.refl true }

/-- Three functions of one name. -/
def threefold : List NamedFunction :=
  [.make letterA .echo [], .make letterA .abs [], .make letterA .max []]

/-- Three infos of one name. -/
def threeInfos : List Info :=
  [advertised (.inr rfl : IsProper "u") letterA, advertised (.inr rfl : IsProper "v") letterA,
    advertised (.inr rfl : IsProper "w") letterA]

/-- The name of three functions is reported twice, but that of three infos of a set once. -/
theorem three_functions_reported_twice :
    ofFunctions {} .sensitive "u" threefold =
        .error (.rejection (.duplicateNames [letterA, letterA])) ∧
      ¬ ReportsOnce .sensitive threefold [letterA, letterA] ∧
      NamedSet.of {} .sensitive threeInfos = .error (.duplicateNames [letterA]) := by
  have hsorted : Name.sortOn id [letterA, letterA] = [letterA, letterA] :=
    Name.sortOn_pair rfl (String.le_refl _)
  have hrefused : ofFunctions {} .sensitive "u" threefold =
    .error (.rejection (.duplicateNames (Name.sortOn id [letterA, letterA]))) := rfl
  rw [hsorted] at hrefused
  exact ⟨hrefused, fun honce => absurd honce.ascending (by decide), rfl⟩

end Leaf

end FunctionCatalog
