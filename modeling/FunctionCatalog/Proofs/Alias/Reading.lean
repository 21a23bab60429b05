import FunctionCatalog.Proofs.Alias.Refusal
import FunctionCatalog.Proofs.NamedSet.Distinct
import FunctionCatalog.Proofs.Value.Same

/-
  FunctionCatalog: what an alias text means.
  An entry means at most one alias, whatever stands around it (`Means`), and a text lists the aliases
  that its entries mean (`Lists`). A text is read as the set of what it lists, and is refused where a
  name is listed twice (`parse_eq_ok_iff`, `parse_of_not_nodup`).
-/

namespace FunctionCatalog

namespace Alias

variable {settings : Settings} {mode : CaseMode} {entry : List Char} {a b : Alias}

/-! ## One entry -/

/-- What an entry means: its name alone, or an alias of its name, its target and its token. -/
inductive Means (settings : Settings) (mode : CaseMode) (entry : List Char) : Alias → Prop
  | passThrough {name : Name} (h : OnlyNames settings mode name entry) :
      Means settings mode entry (passThrough name)
  | target {name : Name} {chars rest : List Char} {s : Selector} {token : Option String} {a : Alias}
      (h : Aims settings mode name chars rest entry)
      (hs : Selector.parse settings mode (String.ofList chars) = .ok s) (hrest : Trails token rest)
      (ha : make name (some s) token = .ok a) : Means settings mode entry a

theorem parseEntry_of_means (offset : Nat) (h : Means settings mode entry a) :
    parseEntry settings mode offset entry = .ok a := by
  cases h with
  | passThrough h => exact parseEntry_of_onlyNames offset h
  | target h hs hrest ha => rw [parseEntry_of_trails offset h hs hrest, ha]

/-- A closed entry is read as what it means, wherever it stands in a text. -/
theorem parseEntry_eq_ok_iff (offset : Nat) (hclosed : Closed false entry) :
    parseEntry settings mode offset entry = .ok a ↔ Means settings mode entry a := by
  refine ⟨fun h => ?_, parseEntry_of_means offset⟩
  rcases parseEntry_cases settings mode offset hclosed with
    ⟨e, hfails⟩ | ⟨name, hname⟩ | ⟨name, chars, rest, haims⟩
  · cases h.symm.trans hfails
  · cases h.symm.trans (parseEntry_of_onlyNames offset hname)
    exact .passThrough hname
  · obtain ⟨target, hparse⟩ := parseEntry_of_aims offset haims
    obtain ⟨s, hread, htail⟩ := exists_of_bind_ok (hparse.symm.trans h)
    obtain ⟨token, htoken, hmake⟩ := exists_of_bind_ok htail
    exact .target haims (parse_of_readTarget hread) (readToken_eq_ok_iff.1 htoken) hmake

theorem Means.unique (ha : Means settings mode entry a) (hb : Means settings mode entry b) : a = b :=
  Except.ok.inj ((parseEntry_of_means 0 ha).symm.trans (parseEntry_of_means 0 hb))

theorem Means.mode_eq (h : Means settings mode entry a) : a.name.mode = mode := by
  cases h with
  | passThrough h =>
    obtain ⟨-, hmake, -⟩ := h
    exact Name.mode_of_make hmake
  | target h _ _ ha =>
    obtain ⟨-, hmake, -⟩ := h
    rw [name_of_make ha]
    exact Name.mode_of_make hmake

theorem Means.not_allBlank (h : Means settings mode entry a) : Text.allBlank entry = false := by
  rw [← Bool.not_eq_true]
  intro hblank
  obtain ⟨e, he⟩ := exists_parseEntry_of_allBlank settings mode 0 hblank
  cases (parseEntry_of_means 0 h).symm.trans he

/-- The entries of a text are told by it. -/
theorem Consists.unique {cs : List Char} {es fs : List (List Char)} (he : Consists cs es)
    (hf : Consists cs fs) : es = fs := by
  rw [← String.toList_ofList (l := cs)] at he hf
  obtain ⟨pieces, hsplit, rfl⟩ := exists_splitEntries_iff.2 he
  obtain ⟨pieces', hsplit', rfl⟩ := exists_splitEntries_iff.2 hf
  rw [Except.ok.inj (hsplit.symm.trans hsplit')]

end Alias

namespace AliasSet
open Entry

variable {settings : Settings} {mode : CaseMode} {text : String} {cs : List Char}
  {pieces : List (Nat × List Char)} {as bs : List Alias} {s : AliasSet} {seen : List Declared}

/-! ## All entries of a text -/

/-- The aliases that the entries of a text mean, one for one. -/
def Lists (settings : Settings) (mode : CaseMode) (cs : List Char) (as : List Alias) : Prop :=
  ∃ es, Alias.Consists cs es ∧ List.Forall₂ (Alias.Means settings mode) es as

theorem lists_iff {es : List (List Char)} (h : Alias.Consists cs es) :
    Lists settings mode cs as ↔ List.Forall₂ (Alias.Means settings mode) es as := by
  refine ⟨?_, fun has => ⟨es, h, has⟩⟩
  rintro ⟨fs, hfs, has⟩
  rwa [h.unique hfs]

theorem Lists.unique (ha : Lists settings mode cs as) (hb : Lists settings mode cs bs) :
    as = bs := by
  obtain ⟨es, hes, has⟩ := ha
  exact List.right_unique_forall₂' (fun _ _ _ ha hb => ha.unique hb) has ((lists_iff hes).1 hb)

theorem Lists.mode_eq (h : Lists settings mode cs as) : ∀ a ∈ as, (name a).mode = mode := by
  obtain ⟨es, -, has⟩ := h
  induction has with
  | nil => exact fun a ha => absurd ha List.not_mem_nil
  | cons ha _ ih => exact List.forall_mem_cons.2 ⟨ha.mode_eq, ih⟩

theorem Lists.ne_nil (h : Lists settings mode cs as) : as ≠ [] := by
  obtain ⟨es, hes, has⟩ := h
  rintro rfl
  cases has
  exact hes.ne_nil rfl

/-- A text that lists something is not blank. -/
theorem Lists.not_allBlank (h : Lists settings mode cs as) : Text.allBlank cs = false := by
  obtain ⟨es, hes, has⟩ := h
  cases has with
  | nil => exact absurd rfl hes.ne_nil
  | @cons e a es as ha _ =>
    obtain ⟨c, hc, hblank⟩ : ∃ c ∈ e, Text.isBlank c = false := by
      simpa [Text.allBlank] using ha.not_allBlank
    have hmem := hes.subset e List.mem_cons_self hc
    rw [← Bool.not_eq_true, Text.allBlank, List.all_eq_true]
    intro hall
    rw [hall c hmem] at hblank
    cases hblank

/-- Closed pieces are read as what they mean. -/
theorem forall₂_parseEntry_iff (hclosed : ∀ p ∈ pieces, Closed false p.2) :
    List.Forall₂ (fun p a => Alias.parseEntry settings mode p.1 p.2 = .ok a) pieces as ↔
      List.Forall₂ (Alias.Means settings mode) (pieces.map (·.2)) as := by
  rw [List.forall₂_map_left_iff]
  constructor
  · intro h
    induction h with
    | nil => exact .nil
    | @cons p a pieces as hp _ ih =>
      obtain ⟨hfirst, hothers⟩ := List.forall_mem_cons.1 hclosed
      exact .cons ((Alias.parseEntry_eq_ok_iff p.1 hfirst).1 hp) (ih hothers)
  · exact fun h => h.imp fun p a => Alias.parseEntry_of_means p.1

/-- Pieces that can all be read are refused only for a name that is declared twice. -/
theorem parseEntries_cases (seen : List Declared)
    (h : List.Forall₂ (fun p a => Alias.parseEntry settings mode p.1 p.2 = .ok a) pieces as) :
    parseEntries settings mode text seen pieces = .ok as ∨
      ∃ n e earlier start, parseEntries settings mode text seen pieces =
        .error (.parse (.duplicateAlias n e earlier text start)) := by
  induction h generalizing seen with
  | nil => exact .inl rfl
  | @cons p a pieces as hp _ ih =>
    simp only [parseEntries, hp, bind, Except.bind]
    split
    · exact .inr ⟨_, _, _, _, rfl⟩
    · rcases ih _ with hrest | ⟨n, e, earlier, start, hrest⟩
      · exact .inl (by rw [hrest])
      · exact .inr ⟨n, e, earlier, start, by rw [hrest]⟩

/-! ## A whole text -/

/-- Pieces of a text that lists aliases, each of which is read as one of them. -/
theorem Lists.exists_pieces (h : Lists settings mode text.toList as) :
    ∃ pieces, Alias.splitEntries text = .ok pieces ∧
      List.Forall₂ (fun p a => Alias.parseEntry settings mode p.1 p.2 = .ok a) pieces as := by
  obtain ⟨es, hes, has⟩ := h
  obtain ⟨pieces, hsplit, rfl⟩ := Alias.exists_splitEntries_iff.2 hes
  exact ⟨pieces, hsplit, (forall₂_parseEntry_iff (List.forall_mem_map.1 hes.closed)).2 has⟩

/-- A text that lists aliases under names of their own is read as the set of them. -/
theorem exists_parse_of_lists (h : Lists settings mode text.toList as)
    (hnodup : (as.map key).Nodup) :
    ∃ s, parse settings mode text = .ok s ∧ s.mode = mode ∧ s.entries.Perm as ∧
      s.handle = .loose := by
  obtain ⟨pieces, hsplit, hreads⟩ := h.exists_pieces
  obtain ⟨s, hs, hparts⟩ := NamedSet.exists_of_nodup settings h.mode_eq
    (fun a _ => a.same_refl) hnodup
  refine ⟨s, ?_, hparts⟩
  have hapart : ReadsApart settings mode [] pieces as := by
    rw [map_key_of_mode h.mode_eq] at hnodup
    exact ⟨hreads, by simp, List.pairwise_map.1 hnodup⟩
  rw [parse_of_splitEntries h.not_allBlank hsplit, parseEntries_eq_ok_iff.2 hapart]
  exact hs

/-- A text that lists a name twice is malformed. -/
theorem parse_of_not_nodup (h : Lists settings mode text.toList as)
    (hnodup : ¬ (as.map key).Nodup) :
    ∃ n e earlier start,
      parse settings mode text = .error (.parse (.duplicateAlias n e earlier text start)) := by
  obtain ⟨pieces, hsplit, hreads⟩ := h.exists_pieces
  rw [parse_of_splitEntries h.not_allBlank hsplit]
  rcases parseEntries_cases [] hreads with hok | ⟨n, e, earlier, start, herror⟩
  · refine absurd ?_ hnodup
    rw [map_key_of_mode h.mode_eq]
    exact List.pairwise_map.2 (parseEntries_eq_ok_iff.1 hok).apart
  · exact ⟨n, e, earlier, start, by rw [herror]; rfl⟩

/-- A set is read from a text exactly if it is the set without entries of a blank text, or the set
of the aliases that the text lists. -/
theorem parse_eq_ok_iff :
    parse settings mode text = .ok s ↔ s.mode = mode ∧ s.handle = .loose ∧
      (Text.allBlank text.toList = true ∧ s.entries = [] ∨
        ∃ as, Lists settings mode text.toList as ∧ s.entries.Perm as) := by
  have hnodup : ∀ {as : List Alias}, s.entries.Perm as → (as.map key).Nodup := fun hperm =>
    (hperm.map key).nodup_iff.1 s.nodup_keys
  constructor
  · intro h
    cases hblank : Text.allBlank text.toList with
    | true =>
      rw [parse, if_pos hblank] at h
      cases h
      exact ⟨rfl, rfl, .inl ⟨rfl, rfl⟩⟩
    | false =>
      obtain ⟨pieces, hsplit⟩ : ∃ pieces, Alias.splitEntries text = .ok pieces := by
        rw [parse, if_neg (by simp [hblank])] at h
        split at h
        · cases h
        · next pieces hsplit => exact ⟨pieces, hsplit⟩
      have hconsists := Alias.exists_splitEntries_iff.1 ⟨pieces, hsplit, rfl⟩
      rw [parse_of_splitEntries hblank hsplit] at h
      obtain ⟨as, has, hof⟩ := exists_of_bind_ok h
      have hapart := parseEntries_eq_ok_iff.1 has
      have hlists : Lists settings mode text.toList as := ⟨_, hconsists,
        (forall₂_parseEntry_iff (List.forall_mem_map.1 hconsists.closed)).1 hapart.reads⟩
      have hkeys : (as.map key).Nodup := by
        rw [map_key_of_mode hlists.mode_eq]
        exact List.pairwise_map.2 hapart.apart
      obtain ⟨t, ht, hmode, hperm, hloose⟩ := NamedSet.exists_of_nodup settings hlists.mode_eq
        (fun a _ => a.same_refl) hkeys
      obtain rfl := Except.ok.inj (hof.symm.trans ht)
      exact ⟨hmode, hloose, .inr ⟨as, hlists, hperm⟩⟩
  · rintro ⟨hmode, hloose, ⟨hblank, hnil⟩ | ⟨as, hlists, hperm⟩⟩
    · rw [parse, if_pos hblank]
      exact congrArg Except.ok (NamedSet.eq_of_parts hmode.symm hnil.symm hloose.symm)
    · obtain ⟨t, ht, htmode, htperm, htloose⟩ := exists_parse_of_lists hlists (hnodup hperm)
      rw [ht]
      exact congrArg Except.ok (NamedSet.eq_of_perm (htmode.trans hmode.symm)
        (htperm.trans hperm.symm) (htloose.trans hloose.symm))

end AliasSet

end FunctionCatalog
