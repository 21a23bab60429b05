import FunctionCatalog.Proofs.Alias.RoundTrip

/-
  FunctionCatalog: what becomes of an alias text.
  An alias text is read as a set or is refused. Nearly all refusals say that it is malformed; two
  come from what an entry is made of and leave the parser as they are, for a number of too many
  digits and for a token with a reserved character. Which of these it is can be told by the text
  (`parse_results`).
-/

namespace FunctionCatalog

namespace AliasSet
open Entry

variable {settings : Settings} {mode : CaseMode} {text : String} {entry : List Char}
  {es : List (List Char)} {pieces : List (Nat × List Char)} {as : List Alias} {names : List Name}
  {r : Rejection}

/-- Entries can be read, each under a name of its own. -/
structure DeclareApart (settings : Settings) (mode : CaseMode) (es : List (List Char))
    (names : List Name) : Prop where
  declares : List.Forall₂ (fun e n => Alias.Declares settings mode n e) es names
  apart : names.Pairwise (fun m n => mode.fold m.value ≠ mode.fold n.value)

/-- A text comes to an entry: those in front of it can be read, each under a name of its own. -/
def ComesTo (settings : Settings) (mode : CaseMode) (entry cs : List Char) : Prop :=
  ∃ before after names, Alias.Consists cs (before ++ entry :: after) ∧
    DeclareApart settings mode before names

theorem declareApart_of_readsApart (h : ReadsApart settings mode [] pieces as)
    (hclosed : ∀ p ∈ pieces, Closed false p.2) :
    DeclareApart settings mode (pieces.map (·.2)) (as.map (·.name)) := by
  refine ⟨?_, List.pairwise_map.2 h.apart⟩
  have hreads := h.reads
  clear h
  induction hreads with
  | nil => exact .nil
  | @cons p a pieces as hp _ ih =>
    obtain ⟨hfirst, hothers⟩ := List.forall_mem_cons.1 hclosed
    exact .cons ((Alias.exists_parseEntry_iff p.1 hfirst).1 ⟨a, hp, rfl⟩) (ih hothers)

theorem exists_readsApart_of_declareApart
    (h : DeclareApart settings mode (pieces.map (·.2)) names) :
    ∃ as, ReadsApart settings mode [] pieces as := by
  obtain ⟨hdeclares, hapart⟩ := h
  obtain ⟨as, hreads, hnames⟩ : ∃ as, List.Forall₂
      (fun p a => Alias.parseEntry settings mode p.1 p.2 = .ok a) pieces as ∧
        as.map (·.name) = names := by
    clear hapart
    induction pieces generalizing names with
    | nil =>
      cases hdeclares
      exact ⟨[], .nil, rfl⟩
    | cons p pieces ih =>
      cases hdeclares with
      | cons hp hothers =>
        obtain ⟨a, ha, rfl⟩ := Alias.exists_parseEntry_of_declares p.1 hp
        obtain ⟨as, has, rfl⟩ := ih hothers
        exact ⟨a :: as, .cons ha has, rfl⟩
  refine ⟨as, hreads, by simp, ?_⟩
  rw [← hnames] at hapart
  have hnames := List.pairwise_map.1 hapart
  exact hnames

/-! ## A whole text -/

theorem parse_of_splitEntries (hblank : Text.allBlank text.toList = false)
    (hsplit : Alias.splitEntries text = .ok pieces) :
    parse settings mode text =
      (parseEntries settings mode text [] pieces >>= NamedSet.of settings mode) := by
  rw [parse, if_neg (by simp [hblank]), hsplit]

/-- Aliases that are read one after another make a set. -/
theorem exists_of_readsApart (h : ReadsApart settings mode [] pieces as)
    (hclosed : ∀ p ∈ pieces, Closed false p.2) :
    ∃ s, NamedSet.of settings mode as = .ok s := by
  have hmodes : ∀ a ∈ as, a.name.mode = mode := fun a ha =>
    (rereads_of_readsApart h hclosed a ha).2
  have hdistinct : as.Pairwise (fun a b => key a ≠ key b) := by
    refine h.apart.imp_of_mem fun {a b} ha hb hne => ?_
    rwa [show key a = mode.fold a.name.value by simp [key, name, Name.key, hmodes a ha],
      show key b = mode.fold b.name.value by simp [key, name, Name.key, hmodes b hb]]
  obtain ⟨s, hs, -⟩ :=
    NamedSet.exists_of (NamedSet.mapM_withMode_of_mode settings hmodes) hdistinct
  exact ⟨s, hs⟩

/-- A refusal other than as malformed is that of an entry that the text comes to. -/
theorem exists_of_parse_error (h : parse settings mode text = .error r) (hr : ∀ e, r ≠ .parse e) :
    ∃ entry offset, ComesTo settings mode entry text.toList ∧ Closed false entry ∧
      Alias.parseEntry settings mode offset entry = .error r := by
  cases hblank : Text.allBlank text.toList with
  | true =>
    rw [parse, if_pos hblank] at h
    cases h
  | false =>
    cases hsplit : Alias.splitEntries text with
    | error e =>
      rw [parse, if_neg (by simp [hblank]), hsplit] at h
      cases h
      exact absurd rfl (hr _)
    | ok pieces =>
      rw [parse_of_splitEntries hblank hsplit] at h
      have hconsists := Alias.exists_splitEntries_iff.1 ⟨pieces, hsplit, rfl⟩
      rcases error_of_bind_error h with hentries | ⟨as, has, hof⟩
      · obtain ⟨before, p, after, as, rfl, hbefore, hp⟩ :=
          (parseEntries_eq_error_iff hr).1 hentries
        have hclosed := List.forall_mem_map.1 hconsists.closed
        rw [List.map_append, List.map_cons] at hconsists
        refine ⟨p.2, p.1, ⟨_, _, _, hconsists, declareApart_of_readsApart hbefore ?_⟩, ?_, hp⟩
        · exact fun q hq => hclosed q (List.mem_append_left _ hq)
        · exact hclosed p (by simp)
      · obtain ⟨s, hs⟩ := exists_of_readsApart (parseEntries_eq_ok_iff.1 has)
          (List.forall_mem_map.1 hconsists.closed)
        rw [hs] at hof
        cases hof

theorem parse_of_comesTo (hcomes : ComesTo settings mode entry text.toList)
    (h : ∀ offset, Alias.parseEntry settings mode offset entry = .error r)
    (hr : ∀ e, r ≠ .parse e) : parse settings mode text = .error r := by
  obtain ⟨before, after, names, hconsists, hbefore⟩ := hcomes
  have hblank : Text.allBlank text.toList = false := by
    cases hall : Text.allBlank text.toList with
    | false => rfl
    | true =>
      have hentry : Text.allBlank entry = true := List.all_eq_true.2 fun c hc =>
        List.all_eq_true.1 hall c (hconsists.subset entry (by simp) hc)
      obtain ⟨e, he⟩ := Alias.exists_parseEntry_of_allBlank settings mode 0 hentry
      exact absurd (Except.error.inj ((h 0).symm.trans he)) (hr e)
  obtain ⟨pieces, hsplit, hpieces⟩ := Alias.exists_splitEntries_iff.2 hconsists
  obtain ⟨front, tail, rfl, rfl, htail⟩ := List.map_eq_append_iff.1 hpieces
  obtain ⟨p, back, rfl, rfl, rfl⟩ := List.map_eq_cons_iff.1 htail
  obtain ⟨as, has⟩ := exists_readsApart_of_declareApart hbefore
  have hentries : parseEntries settings mode text [] (front ++ p :: back) = .error r :=
    (parseEntries_eq_error_iff hr).2 ⟨front, p, back, as, rfl, has, h p.1⟩
  rw [parse_of_splitEntries hblank hsplit, hentries]
  rfl

/-- A text is read as a set where it is blank, or where its entries can be read, each under a name
of its own. -/
theorem exists_parse_iff :
    (∃ s, parse settings mode text = .ok s) ↔
      Text.allBlank text.toList = true ∨
        ∃ es names, Alias.Consists text.toList es ∧ DeclareApart settings mode es names := by
  cases hblank : Text.allBlank text.toList with
  | true =>
    refine ⟨fun _ => .inl rfl, fun _ => ⟨NamedSet.empty mode, ?_⟩⟩
    rw [parse, if_pos hblank]
  | false =>
    constructor
    · rintro ⟨s, hs⟩
      cases hsplit : Alias.splitEntries text with
      | error e =>
        rw [parse, if_neg (by simp [hblank]), hsplit] at hs
        cases hs
      | ok pieces =>
        rw [parse_of_splitEntries hblank hsplit] at hs
        obtain ⟨as, has, -⟩ := exists_of_bind_ok hs
        have hconsists := Alias.exists_splitEntries_iff.1 ⟨pieces, hsplit, rfl⟩
        refine .inr ⟨_, _, hconsists, declareApart_of_readsApart (parseEntries_eq_ok_iff.1 has) ?_⟩
        exact List.forall_mem_map.1 hconsists.closed
    · rintro (h | ⟨es, names, hconsists, hes⟩)
      · cases h
      · obtain ⟨pieces, hsplit, rfl⟩ := Alias.exists_splitEntries_iff.2 hconsists
        obtain ⟨as, has⟩ := exists_readsApart_of_declareApart hes
        obtain ⟨s, hs⟩ := exists_of_readsApart has (List.forall_mem_map.1 hconsists.closed)
        refine ⟨s, ?_⟩
        rw [parse_of_splitEntries hblank hsplit, parseEntries_eq_ok_iff.2 has]
        exact hs

/-- What the parser makes of an alias text: a set, just when the text is blank or all its entries
can be read, each under a name of its own; a refusal for the digits of a number, or for a token,
just when it comes to an entry with such a number or such a token; and a refusal as malformed in
all other cases. -/
theorem parse_results (settings : Settings) (mode : CaseMode) (text : String) :
    ((∃ s, parse settings mode text = .ok s) ↔
      Text.allBlank text.toList = true ∨
        ∃ es names, Alias.Consists text.toList es ∧ DeclareApart settings mode es names) ∧
    (parse settings mode text = .error .digitLimit ↔
      ∃ entry, ComesTo settings mode entry text.toList ∧
        Alias.HasLongNumber settings mode entry) ∧
    (∀ t, parse settings mode text = .error (.token t) ↔
      ∃ entry, ComesTo settings mode entry text.toList ∧
        Alias.HasBadToken settings mode t entry) ∧
    (∀ r, parse settings mode text = .error r →
      r = .digitLimit ∨ (∃ t, r = .token t) ∨ ∃ e, r = .parse e) := by
  refine ⟨exists_parse_iff, ⟨fun h => ?_, ?_⟩, fun t => ⟨fun h => ?_, ?_⟩, fun r h => ?_⟩
  · obtain ⟨entry, offset, hcomes, hclosed, hentry⟩ := exists_of_parse_error h (by simp)
    exact ⟨entry, hcomes, (Alias.parseEntry_eq_digitLimit_iff offset hclosed).1 hentry⟩
  · rintro ⟨entry, hcomes, hentry⟩
    exact parse_of_comesTo hcomes
      (fun offset => Alias.parseEntry_of_hasLongNumber offset hentry) (by simp)
  · obtain ⟨entry, offset, hcomes, hclosed, hentry⟩ := exists_of_parse_error h (by simp)
    exact ⟨entry, hcomes, (Alias.parseEntry_eq_token_iff offset hclosed).1 hentry⟩
  · rintro ⟨entry, hcomes, hentry⟩
    exact parse_of_comesTo hcomes
      (fun offset => Alias.parseEntry_of_hasBadToken offset hentry) (by simp)
  · by_cases hr : ∃ e, r = .parse e
    · exact .inr (.inr hr)
    · obtain ⟨entry, offset, -, hclosed, hentry⟩ :=
        exists_of_parse_error h fun e he => hr ⟨e, he⟩
      rcases Alias.parseEntry_outcome settings mode offset hclosed with
        ⟨a, ha, -⟩ | ⟨hlimit, -⟩ | ⟨t, htoken, -⟩ | ⟨e, he⟩
      · cases hentry.symm.trans ha
      · exact .inl (Except.error.inj (hentry.symm.trans hlimit))
      · exact .inr (.inl ⟨t, Except.error.inj (hentry.symm.trans htoken)⟩)
      · exact .inr (.inr ⟨e, Except.error.inj (hentry.symm.trans he)⟩)

/-- A token with a quote in it is refused as a token, not as malformed text. -/
theorem quoted_token_escapes :
    ∃ r, parse {} .sensitive "a b \"x\"" = .error r ∧ ∀ e, r ≠ .parse e := by
  have hescapes : (match parse {} .sensitive "a b \"x\"" with
      | .error (.token t) => t == "\"x\""
      | _ => false) = true := by decide +kernel
  split at hescapes
  · next t h => exact ⟨.token t, h, fun e => by simp⟩
  · cases hescapes

end AliasSet

end FunctionCatalog
