import FunctionCatalog.Proofs.Alias.Spacing
import FunctionCatalog.Proofs.ItemSet.FiniteMap
import Mathlib.Data.List.Perm.Basic

/-
  FunctionCatalog: alias texts with a comma between them.
  A text that closes all it opens consists of entries, and a comma behind it ends the last of them.
  So two texts and a comma list what the one lists and then what the other does, and the text is
  read as the union of the two sets (`parse_append`). Neither the order of the entries nor the white
  space in them matters.
-/

namespace FunctionCatalog

open Alias (Consists Respaced)

namespace Alias

variable {commas : Bool} {cs ds e f p : List Char} {es fs : List (List Char)}

/-! ## Entries of joined texts -/

theorem Consists.append (he : Consists cs es) (hf : Consists ds fs) :
    Consists (cs ++ ',' :: ds) (es ++ fs) := by
  obtain ⟨hne, hclosed, rfl⟩ := he
  obtain ⟨hne', hclosed', rfl⟩ := hf
  obtain ⟨e, es, rfl⟩ := List.exists_cons_of_ne_nil hne
  obtain ⟨f, fs, rfl⟩ := List.exists_cons_of_ne_nil hne'
  refine ⟨List.append_ne_nil_of_left_ne_nil hne _, List.forall_mem_append.2 ⟨hclosed, hclosed'⟩, ?_⟩
  rw [List.cons_append, intercalate_comma, intercalate_comma, intercalate_comma]
  simp

theorem consists_singleton (he : Closed false e) : Consists e [e] :=
  ⟨List.cons_ne_nil _ _, by simpa using he, by simp⟩

/-- What is closed can stand in front of the first entry. -/
theorem Consists.prepend (hp : Closed false p) (h : Consists cs es) :
    ∃ fs, Consists (p ++ cs) fs := by
  obtain ⟨hne, hclosed, rfl⟩ := h
  obtain ⟨e, es, rfl⟩ := List.exists_cons_of_ne_nil hne
  obtain ⟨he, hes⟩ := List.forall_mem_cons.1 hclosed
  refine ⟨(p ++ e) :: es, List.cons_ne_nil _ _, List.forall_mem_cons.2 ⟨hp.append he, hes⟩, ?_⟩
  rw [intercalate_comma, intercalate_comma, List.append_assoc]

/-- A text that closes all it opens consists of entries. -/
theorem exists_consists (h : Closed commas cs) : ∃ es, Consists cs es := by
  induction h with
  | nil => exact ⟨[[]], consists_singleton (.nil false)⟩
  | @plain _ c cs hc _ ih =>
    obtain ⟨es, hes⟩ := ih
    exact hes.prepend (p := [c]) (.plain hc (.nil false))
  | comma _ ih =>
    obtain ⟨es, hes⟩ := ih
    exact ⟨_, (consists_singleton (.nil false)).append hes⟩
  | @literal _ q cs hq _ ih =>
    obtain ⟨es, hes⟩ := ih
    have hall := hes.prepend (p := '"' :: (q ++ [])) (.literal hq (.nil false))
    rwa [List.append_nil] at hall
  | @list _ a cs ha _ _ ih =>
    obtain ⟨es, hes⟩ := ih
    have hall := hes.prepend (p := '(' :: (a ++ [')'])) (.list ha (.nil false))
    rwa [List.cons_append, List.append_assoc] at hall

/-- A comma behind a closed text ends an entry. -/
theorem Consists.exists_of_cons (he : Closed false e) (h : Consists (e ++ ',' :: ds) es) :
    ∃ fs, Consists ds fs := by
  rw [← String.toList_ofList (l := e ++ ',' :: ds)] at h
  obtain ⟨pieces, hsplit, -⟩ := exists_splitEntries_iff.2 h
  rw [splitEntries, String.toList_ofList, splitFrom_append he (by simp), splitFrom_separator]
    at hsplit
  obtain ⟨cut, hcut, -⟩ := exists_of_map_ok hsplit
  obtain ⟨front, hfront, -⟩ := exists_of_map_ok hcut
  obtain ⟨f, fs, -, hf, hfs, rfl⟩ := isCut_of_splitFrom hfront
  cases hf with
  | top hf => exact ⟨f :: fs, List.cons_ne_nil _ _, List.forall_mem_cons.2 ⟨hf, hfs⟩,
      intercalate_comma f fs⟩

/-- A comma behind a text that closes all it opens lies between two entries. -/
theorem Consists.exists_append (hcs : Closed true cs) (h : Consists (cs ++ ',' :: ds) es) :
    ∃ es₁ es₂, es = es₁ ++ es₂ ∧ Consists cs es₁ ∧ Consists ds es₂ := by
  obtain ⟨es₁, hes₁⟩ := exists_consists hcs
  obtain ⟨es₂, hes₂⟩ : ∃ es₂, Consists ds es₂ := by
    obtain ⟨hne, hclosed, rfl⟩ := hes₁
    clear hcs
    induction es₁ generalizing es with
    | nil => exact absurd rfl hne
    | cons e es₁ ih =>
      obtain ⟨he, hes₁⟩ := List.forall_mem_cons.1 hclosed
      cases es₁ with
      | nil =>
        rw [List.intercalate_singleton] at h
        exact h.exists_of_cons he
      | cons f es₁ =>
        rw [List.intercalate_cons_cons, List.append_assoc, List.append_assoc,
          List.singleton_append] at h
        obtain ⟨fs, hfs⟩ := h.exists_of_cons he
        exact ih (List.cons_ne_nil _ _) hes₁ hfs
  exact ⟨es₁, es₂, h.unique (hes₁.append hes₂), hes₁, hes₂⟩

end Alias

namespace AliasSet
open Entry

variable {settings : Settings} {mode : CaseMode} {text t₁ t₂ : String} {cs ds : List Char}
  {as bs : List Alias} {es fs : List (List Char)} {s s₁ s₂ : AliasSet}

/-! ## Aliases of joined texts -/

theorem Lists.append (ha : Lists settings mode cs as) (hb : Lists settings mode ds bs) :
    Lists settings mode (cs ++ ',' :: ds) (as ++ bs) := by
  obtain ⟨es, hes, has⟩ := ha
  obtain ⟨fs, hfs, hbs⟩ := hb
  exact ⟨es ++ fs, hes.append hfs, List.rel_append has hbs⟩

theorem Lists.exists_append (hcs : Closed true cs) (h : Lists settings mode (cs ++ ',' :: ds) as) :
    ∃ as₁ as₂, as = as₁ ++ as₂ ∧ Lists settings mode cs as₁ ∧ Lists settings mode ds as₂ := by
  obtain ⟨es, hes, has⟩ := h
  obtain ⟨es₁, es₂, rfl, hes₁, hes₂⟩ := hes.exists_append hcs
  refine ⟨as.take es₁.length, as.drop es₁.length, (List.take_append_drop _ _).symm,
    ⟨es₁, hes₁, ?_⟩, ⟨es₂, hes₂, ?_⟩⟩
  · simpa using List.forall₂_take es₁.length has
  · simpa using List.forall₂_drop es₁.length has

/-- The same entries in another order mean the same aliases. -/
theorem Lists.exists_perm (hes : Consists cs es) (hfs : Consists ds fs) (hperm : es.Perm fs)
    (h : Lists settings mode cs as) : ∃ bs, Lists settings mode ds bs ∧ bs.Perm as := by
  obtain ⟨bs, hbs, hbas⟩ := List.perm_comp_forall₂ hperm.symm ((lists_iff hes).1 h)
  exact ⟨bs, ⟨fs, hfs, hbs⟩, hbas⟩

theorem consists_of_respaced (hes : Consists cs es) (h : List.Forall₂ Respaced es fs) :
    Consists ([','].intercalate fs) fs := by
  refine ⟨?_, ?_, rfl⟩
  · rintro rfl
    cases h
    exact hes.ne_nil rfl
  · have hclosed := hes.closed
    clear hes
    induction h with
    | nil => exact fun f hf => absurd hf List.not_mem_nil
    | cons hef _ ih =>
      obtain ⟨he, hes⟩ := List.forall_mem_cons.1 hclosed
      exact List.forall_mem_cons.2 ⟨hef.closed he, ih hes⟩

/-- Entries with other white space mean the same aliases. -/
theorem Lists.respace (hes : Consists cs es) (hfs : List.Forall₂ Respaced es fs)
    (h : Lists settings mode cs as) : Lists settings mode ([','].intercalate fs) as := by
  have has := (lists_iff hes).1 h
  refine ⟨fs, consists_of_respaced hes hfs, ?_⟩
  clear hes h
  induction hfs generalizing as with
  | nil => exact has
  | cons hef _ ih =>
    cases has with
    | cons he has => exact .cons (hef.means he) (ih has)

/-! ## Sets of joined texts -/

theorem toList_append_comma (t₁ t₂ : String) :
    (t₁ ++ "," ++ t₂).toList = t₁.toList ++ ',' :: t₂.toList := by
  rw [String.toList_append, String.toList_append, List.append_assoc]
  rfl

/-- Two sets share a folded name. -/
def ShareName (s₁ s₂ : AliasSet) : Prop :=
  ∃ a ∈ s₁.entries, ∃ b ∈ s₂.entries, s₁.fold a.name.value = s₁.fold b.name.value

theorem nodup_append_iff (hmode : s₂.mode = s₁.mode) :
    ((s₁.entries ++ s₂.entries).map key).Nodup ↔ ¬ ShareName s₁ s₂ := by
  have hkey : ∀ a ∈ s₁.entries ++ s₂.entries, key a = s₁.fold a.name.value := by
    intro a ha
    have hname : (name a).mode = s₁.mode := by
      rcases List.mem_append.1 ha with ha | ha
      · exact s₁.mode_of_mem a ha
      · exact (s₂.mode_of_mem a ha).trans hmode
    rw [NamedSet.fold, ← hname]
    rfl
  rw [List.map_append, List.nodup_append]
  constructor
  · rintro ⟨-, -, hdiffer⟩ ⟨a, ha, b, hb, heq⟩
    rw [← hkey a (List.mem_append_left _ ha), ← hkey b (List.mem_append_right _ hb)] at heq
    exact hdiffer _ (List.mem_map_of_mem ha) _ (List.mem_map_of_mem hb) heq
  · intro h
    refine ⟨s₁.nodup_keys, s₂.nodup_keys, ?_⟩
    rintro _ hx _ hy heq
    obtain ⟨a, ha, rfl⟩ := List.mem_map.1 hx
    obtain ⟨b, hb, rfl⟩ := List.mem_map.1 hy
    rw [hkey a (List.mem_append_left _ ha), hkey b (List.mem_append_right _ hb)] at heq
    exact h ⟨a, ha, b, hb, heq⟩

/-- A set takes in another one with names of its own. -/
theorem concatAll_asItems (settings : Settings) (hmode : s₂.mode = s₁.mode)
    (hne : s₂.entries ≠ []) (hshare : ¬ ShareName s₁ s₂) (hs : s.mode = s₁.mode)
    (hperm : s.entries.Perm (s₁.entries ++ s₂.entries)) (hloose : s.handle = .loose) :
    s₁.asItems.concatAll settings (s₂.asItems.entries.map .item) = .ok s.asItems := by
  have hself : ∀ e ∈ s₁.asItems.set.entries ++ s₂.asItems.entries, Entry.same e e = true := by
    intro e he
    obtain ⟨a, -, rfl⟩ : ∃ a ∈ s₁.entries ++ s₂.entries, Item.alias a = e := by
      rw [← List.mem_map, List.map_append]
      exact he
    show Item.same (.alias a) (.alias a) = true
    rw [Item.same, a.same_refl]
  have hnodup : ((s₁.asItems.set.entries ++ s₂.asItems.entries).map key).Nodup := by
    have hkeys := (nodup_append_iff hmode).2 hshare
    show ((s₁.entries.map Item.alias ++ s₂.entries.map Item.alias).map key).Nodup
    rw [← List.map_append, List.map_map]
    exact hkeys
  have hmodes : ∀ e ∈ s₂.asItems.entries, (name e).mode = s₁.asItems.set.mode := fun e he =>
    (s₂.asItems.set.mode_of_mem e he).trans hmode
  obtain ⟨t, ht, htmode, htperm, htloose⟩ := NamedSet.exists_concatAll_of_nodup settings hmodes
    hself hnodup (by simpa [AliasSet.asItems, ItemSet.entries, NamedSet.lift] using hne)
  rw [ItemSet.concatAll_items, ht]
  have hsame : t = s.asItems.set := by
    refine NamedSet.eq_of_perm (htmode.trans hs.symm) (htperm.trans ?_) (htloose.trans hloose.symm)
    show (s₁.entries.map Item.alias ++ s₂.entries.map Item.alias).Perm (s.entries.map Item.alias)
    rw [← List.map_append]
    exact (hperm.map Item.alias).symm
  rw [hsame]
  rfl

theorem exists_lists_of_parse (hblank : Text.allBlank text.toList = false)
    (h : parse settings mode text = .ok s) :
    s.mode = mode ∧ ∃ as, Lists settings mode text.toList as ∧ s.entries.Perm as := by
  obtain ⟨hmode, -, ⟨hall, -⟩ | hlists⟩ := parse_eq_ok_iff.1 h
  · rw [hblank] at hall
    cases hall
  · exact ⟨hmode, hlists⟩

/-- Two texts joined by a comma are read as the union of their sets, or are refused where these
share a name. -/
theorem parse_append (hblank₁ : Text.allBlank t₁.toList = false)
    (hblank₂ : Text.allBlank t₂.toList = false) (h₁ : parse settings mode t₁ = .ok s₁)
    (h₂ : parse settings mode t₂ = .ok s₂) :
    (¬ ShareName s₁ s₂ → ∃ s, parse settings mode (t₁ ++ "," ++ t₂) = .ok s ∧
      s₁.asItems.concatAll settings (s₂.asItems.entries.map .item) = .ok s.asItems) ∧
    (ShareName s₁ s₂ → ∃ e, parse settings mode (t₁ ++ "," ++ t₂) = .error (.parse e)) := by
  obtain ⟨hmode₁, as, has, hperm₁⟩ := exists_lists_of_parse hblank₁ h₁
  obtain ⟨hmode₂, bs, hbs, hperm₂⟩ := exists_lists_of_parse hblank₂ h₂
  have hmode : s₂.mode = s₁.mode := hmode₂.trans hmode₁.symm
  have hlists : Lists settings mode (t₁ ++ "," ++ t₂).toList (as ++ bs) := by
    rw [toList_append_comma]
    exact has.append hbs
  have hperm : (s₁.entries ++ s₂.entries).Perm (as ++ bs) := hperm₁.append hperm₂
  have hnodup : ((as ++ bs).map key).Nodup ↔ ¬ ShareName s₁ s₂ :=
    (hperm.map key).nodup_iff.symm.trans (nodup_append_iff hmode)
  constructor
  · intro hshare
    obtain ⟨s, hs, hsmode, hsperm, hloose⟩ := exists_parse_of_lists hlists (hnodup.2 hshare)
    have hne : s₂.entries ≠ [] := fun hnil => hbs.ne_nil (List.nil_perm.1 (hnil ▸ hperm₂))
    exact ⟨s, hs, concatAll_asItems settings hmode hne hshare (hsmode.trans hmode₁.symm)
      (hsperm.trans hperm.symm) hloose⟩
  · intro hshare
    obtain ⟨n, e, earlier, start, herror⟩ :=
      parse_of_not_nodup hlists (fun hall => hnodup.1 hall hshare)
    exact ⟨_, herror⟩

/-- Both sides of a comma that is in no list and no literal are read if the whole is. -/
theorem exists_parse_sides (hclosed : Closed true t₁.toList)
    (h : parse settings mode (t₁ ++ "," ++ t₂) = .ok s) :
    (Text.allBlank t₁.toList = false ∧ ∃ s₁, parse settings mode t₁ = .ok s₁) ∧
      Text.allBlank t₂.toList = false ∧ ∃ s₂, parse settings mode t₂ = .ok s₂ := by
  have hblank : Text.allBlank (t₁ ++ "," ++ t₂).toList = false := by
    rw [toList_append_comma, ← Bool.not_eq_true, Text.allBlank_append]
    rintro ⟨-, hcomma⟩
    exact absurd (List.all_eq_true.1 hcomma ',' List.mem_cons_self) (by decide)
  obtain ⟨-, as, hlists, hperm⟩ := exists_lists_of_parse hblank h
  rw [toList_append_comma] at hlists
  obtain ⟨as₁, as₂, rfl, h₁, h₂⟩ := hlists.exists_append hclosed
  have hnodup : ((as₁ ++ as₂).map key).Nodup := (hperm.map key).nodup_iff.1 s.nodup_keys
  rw [List.map_append, List.nodup_append] at hnodup
  obtain ⟨s₁, hs₁, -⟩ := exists_parse_of_lists h₁ hnodup.1
  obtain ⟨s₂, hs₂, -⟩ := exists_parse_of_lists h₂ hnodup.2.1
  exact ⟨⟨h₁.not_allBlank, s₁, hs₁⟩, h₂.not_allBlank, s₂, hs₂⟩

/-! ## The layout of a text -/

/-- A text that lists the same aliases in some order is read as the same set. -/
theorem parse_of_perm (h : parse settings mode text = .ok s)
    (hlists : Lists settings mode text.toList as) (hds : Lists settings mode ds bs)
    (hperm : bs.Perm as) : parse settings mode (String.ofList ds) = .ok s := by
  obtain ⟨hmode, hloose, ⟨hblank, -⟩ | ⟨as', hlists', hentries⟩⟩ := parse_eq_ok_iff.1 h
  · rw [hlists.not_allBlank] at hblank
    cases hblank
  · obtain rfl := hlists.unique hlists'
    refine parse_eq_ok_iff.2 ⟨hmode, hloose, .inr ⟨bs, ?_, hentries.trans hperm.symm⟩⟩
    rwa [String.toList_ofList]

/-- A text that is read consists of entries, and is read as the same set with these in any other
order and with other white space in them. -/
theorem parse_of_layout (h : parse settings mode text = .ok s) :
    ∃ es, Consists text.toList es ∧
      (∀ fs, es.Perm fs → parse settings mode (String.ofList ([','].intercalate fs)) = .ok s) ∧
      ∀ fs, List.Forall₂ Respaced es fs →
        parse settings mode (String.ofList ([','].intercalate fs)) = .ok s := by
  cases hblank : Text.allBlank text.toList with
  | false =>
    obtain ⟨-, as, hlists, -⟩ := exists_lists_of_parse hblank h
    obtain ⟨es, hes, -⟩ := id hlists
    refine ⟨es, hes, fun fs hperm => ?_, fun fs hfs => ?_⟩
    · have hconsists : Consists ([','].intercalate fs) fs :=
        ⟨fun hnil => hes.ne_nil (List.perm_nil.1 (hnil ▸ hperm)),
          fun f hf => hes.closed f (hperm.mem_iff.2 hf), rfl⟩
      obtain ⟨bs, hbs, hbas⟩ := hlists.exists_perm hes hconsists hperm
      exact parse_of_perm h hlists hbs hbas
    · exact parse_of_perm h hlists (hlists.respace hes hfs) (.refl as)
  | true =>
    -- the only entry of a blank text is the text
    refine ⟨[text.toList], Alias.consists_singleton (.of_allBlank hblank), fun fs hperm => ?_,
      fun fs hfs => ?_⟩
    · obtain rfl := List.singleton_perm.1 hperm
      rwa [List.intercalate_singleton, String.ofList_toList]
    · obtain ⟨f, hf, rfl⟩ : ∃ f, Respaced text.toList f ∧ fs = [f] := by
        obtain ⟨f, fs, hf, hnil, rfl⟩ := List.forall₂_cons_left_iff.1 hfs
        rw [List.forall₂_nil_left_iff.1 hnil]
        exact ⟨f, hf, rfl⟩
      rw [parse, if_pos hblank] at h
      rw [List.intercalate_singleton, parse, String.toList_ofList, if_pos (hf.allBlank hblank)]
      exact h

/-- Alias texts with a comma between them are read as the union of their sets, with the mode and
the entries that `concatAll` gives, and are malformed where the two sets share a name, even one of
equal entries. So what stands on the two sides of a comma that is in no list and no literal is read
if the whole is, and is not blank. The order of the entries of a text makes no difference, and
neither does the white space at the ends of an entry, which are those of the text and the places
beside its commas, or how much there is between its name and its target and in front of its
token. -/
theorem parse_joined (settings : Settings) (mode : CaseMode) :
    (∀ (t₁ t₂ : String) (s₁ s₂ : AliasSet), Text.allBlank t₁.toList = false →
      Text.allBlank t₂.toList = false → parse settings mode t₁ = .ok s₁ →
      parse settings mode t₂ = .ok s₂ →
      (¬ ShareName s₁ s₂ → ∃ s, parse settings mode (t₁ ++ "," ++ t₂) = .ok s ∧
        s₁.asItems.concatAll settings (s₂.asItems.entries.map .item) = .ok s.asItems) ∧
      (ShareName s₁ s₂ → ∃ e, parse settings mode (t₁ ++ "," ++ t₂) = .error (.parse e))) ∧
    (∀ (t₁ t₂ : String) (s : AliasSet), Closed true t₁.toList →
      parse settings mode (t₁ ++ "," ++ t₂) = .ok s →
      (Text.allBlank t₁.toList = false ∧ ∃ s₁, parse settings mode t₁ = .ok s₁) ∧
        Text.allBlank t₂.toList = false ∧ ∃ s₂, parse settings mode t₂ = .ok s₂) ∧
    ∀ (text : String) (s : AliasSet), parse settings mode text = .ok s →
      ∃ es, Consists text.toList es ∧
        (∀ fs, es.Perm fs → parse settings mode (String.ofList ([','].intercalate fs)) = .ok s) ∧
        ∀ fs, List.Forall₂ Respaced es fs →
          parse settings mode (String.ofList ([','].intercalate fs)) = .ok s :=
  ⟨fun _ _ _ _ hblank₁ hblank₂ h₁ h₂ => parse_append hblank₁ hblank₂ h₁ h₂,
    fun _ _ _ hclosed h => exists_parse_sides hclosed h, fun _ _ h => parse_of_layout h⟩

/-- A text with a comma in a literal, and another one. -/
theorem parse_joined_literal :
    ∃ s₁ s₂ s, parse {} .insensitive "a f(\",\") t" = .ok s₁ ∧ parse {} .insensitive "B" = .ok s₂ ∧
      ¬ ShareName s₁ s₂ ∧ parse {} .insensitive ("a f(\",\") t" ++ "," ++ "B") = .ok s ∧
      s₁.asItems.concatAll {} (s₂.asItems.entries.map .item) = .ok s.asItems ∧
      parse {} .insensitive "a\t f(\",\") t, B" = .ok s := by
  have hread₁ : (parse {} .insensitive "a f(\",\") t").toOption.map
      (fun s => s.entries.map key) = some ["a"] := by decide +kernel
  have hread₂ : (parse {} .insensitive "B").toOption.map
      (fun s => s.entries.map key) = some ["b"] := by decide +kernel
  obtain ⟨s₁, h₁, hkeys₁⟩ := exists_of_toOption_map hread₁
  obtain ⟨s₂, h₂, hkeys₂⟩ := exists_of_toOption_map hread₂
  have hshare : ¬ ShareName s₁ s₂ := by
    have hmode : s₂.mode = s₁.mode := (parse_eq_ok_iff.1 h₂).1.trans (parse_eq_ok_iff.1 h₁).1.symm
    rw [← nodup_append_iff hmode, List.map_append, hkeys₁, hkeys₂]
    decide
  obtain ⟨s, hs, hconcat⟩ :=
    ((parse_joined {} .insensitive).1 _ _ s₁ s₂ (by decide) (by decide) h₁ h₂).1 hshare
  refine ⟨s₁, s₂, s, h₁, h₂, hshare, hs, hconcat, ?_⟩
  obtain ⟨es, hes, -, hrespaced⟩ := (parse_joined {} .insensitive).2.2 _ s hs
  have hconsists : Consists ("a f(\",\") t" ++ "," ++ "B").toList
      ["a f(\",\") t".toList, "B".toList] := by
    have hlist : Closed false ('(' :: (['"', ',', '"'] ++ [')', ' ', 't'])) :=
      .list (.literal (.plain (by decide) (by decide) .close) (.nil true))
        (.of_all_isPlain (List.all_eq_true.1 (by decide)))
    exact (Alias.consists_singleton (e := "a f(\",\") t".toList)
      (.append_of_all_isPlain (a := ['a', ' ', 'f']) (List.all_eq_true.1 (by decide)) hlist)).append
        (Alias.consists_singleton (.of_isName (by decide)))
  obtain rfl := hes.unique hconsists
  have hgap : Respaced ([] ++ (['a'] ++ ([' '] ++ "f(\",\") t".toList)))
      ([] ++ (['a'] ++ (['\t', ' '] ++ "f(\",\") t".toList))) :=
    .target _ rfl (by decide) ⟨by decide, by decide⟩ ⟨by decide, by decide⟩
  have hstart : Respaced ([] ++ (['B'] ++ [])) ([' '] ++ (['B'] ++ [])) :=
    .around _ rfl rfl rfl rfl
  exact hrespaced ["a\t f(\",\") t".toList, " B".toList] (.cons hgap (.cons hstart .nil))

end AliasSet

end FunctionCatalog
