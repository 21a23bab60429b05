import FunctionCatalog.AliasSet
import FunctionCatalog.Proofs.Alias.Scanners
import Mathlib.Data.List.Forall2

/-
  FunctionCatalog: the entries of an alias text.
  A text is cut into entries exactly where it consists of closed texts with commas between them
  (`exists_splitEntries_iff`), and the entries are read one after another, each under a name of its
  own (`parseEntries_eq_ok_iff`, `parseEntries_eq_error_iff`).
-/

namespace FunctionCatalog

namespace Alias

variable {text : String} {start i depth : Nat} {inText : Bool} {c : Char}
  {cs e : List Char} {es : List (List Char)} {pieces : List (Nat × List Char)}

/-- A text consists of these entries: each is closed, and there is a comma between any two. -/
structure Consists (cs : List Char) (es : List (List Char)) : Prop where
  ne_nil : es ≠ []
  closed : ∀ e ∈ es, Closed false e
  joined : [','].intercalate es = cs

theorem intercalate_comma (e : List Char) (es : List (List Char)) :
    [','].intercalate (e :: es) = e ++ es.flatMap (',' :: ·) := by
  induction es generalizing e with
  | nil => simp
  | cons f es ih => rw [List.intercalate_cons_cons, ih, List.flatMap_cons]; simp

/-- The characters of an entry stand in the text. -/
theorem Consists.subset (h : Consists cs es) : ∀ e ∈ es, e ⊆ cs := by
  obtain ⟨-, -, rfl⟩ := h
  induction es with
  | nil => exact fun e he => absurd he List.not_mem_nil
  | cons f es ih =>
    rw [intercalate_comma]
    refine List.forall_mem_cons.2 ⟨List.subset_append_left _ _, fun e he c hc => ?_⟩
    exact List.mem_append_right f (List.mem_flatMap.2 ⟨e, he, List.mem_cons_of_mem ',' hc⟩)

/-! ## Closed texts are cut at the commas between them -/

/-- Closed texts with commas between them are cut into just these texts. -/
theorem exists_splitFrom (text : String) (start i : Nat) (he : Closed false e)
    (hes : ∀ f ∈ es, Closed false f) :
    ∃ pieces, splitFrom text start i 0 false (e ++ es.flatMap (',' :: ·)) = .ok pieces ∧
      pieces.map (·.2) = e :: es := by
  induction es generalizing start i e with
  | nil =>
    refine ⟨[(start, e ++ [])], ?_, by simp⟩
    rw [List.flatMap_nil, splitFrom_append he (by simp)]
    rfl
  | cons f es ih =>
    obtain ⟨pieces, hsplit, hpieces⟩ := ih (i + e.length + 1) (i + e.length + 1)
      (hes f List.mem_cons_self) (fun g hg => hes g (List.mem_cons_of_mem f hg))
    refine ⟨(start, e) :: pieces, ?_, by simp [hpieces]⟩
    rw [List.flatMap_cons, splitFrom_append he (by simp), List.cons_append, splitFrom_separator,
      hsplit]
    simp [Except.map, onto]

/-! ## Whatever is cut consists of closed texts -/

/-- The rest of an entry from a place with so many parentheses open, in a literal or not: it ends
the literal and closes the parentheses. -/
inductive RestOfEntry : Nat → Bool → List Char → Prop
  | top {cs : List Char} (h : Closed false cs) : RestOfEntry 0 false cs
  | inner {depth : Nat} {a cs : List Char} (ha : Closed true a)
      (h : RestOfEntry depth false cs) : RestOfEntry (depth + 1) false (a ++ ')' :: cs)
  | quoted {depth : Nat} {q cs : List Char} (hq : Quoted q)
      (h : RestOfEntry depth false cs) : RestOfEntry depth true (q ++ cs)

namespace RestOfEntry

theorem plain (hc : isPlain c = true) (h : RestOfEntry depth false cs) :
    RestOfEntry depth false (c :: cs) := by
  cases h with
  | top h => exact .top (.plain hc h)
  | inner ha h => exact .inner (.plain hc ha) h

theorem comma (h : RestOfEntry (depth + 1) false cs) :
    RestOfEntry (depth + 1) false (',' :: cs) := by
  cases h with
  | inner ha h => exact .inner (.comma ha) h

theorem literal (h : RestOfEntry depth true cs) : RestOfEntry depth false ('"' :: cs) := by
  cases h with
  | @quoted _ q _ hq h =>
    cases h with
    | top h => exact .top (.literal hq h)
    | @inner _ a _ ha h =>
      have hfront := RestOfEntry.inner (.literal hq ha) h
      rwa [List.cons_append, List.append_assoc] at hfront

theorem list (h : RestOfEntry (depth + 1) false cs) : RestOfEntry depth false ('(' :: cs) := by
  cases h with
  | @inner _ a _ ha h =>
    cases h with
    | top h => exact .top (.list ha h)
    | inner hb h =>
      have hfront := RestOfEntry.inner (.list ha hb) h
      rwa [List.cons_append, List.append_assoc, List.cons_append] at hfront

theorem escaped (h : RestOfEntry depth true cs) : RestOfEntry depth true ('\\' :: c :: cs) := by
  cases h with
  | quoted hq h => exact .quoted (.escaped c hq) h

/-- A character of a literal, which may be the quote that ends it. -/
theorem inLiteral (hb : c ≠ '\\') (h : RestOfEntry depth (c != '"') cs) :
    RestOfEntry depth true (c :: cs) := by
  by_cases hq : c = '"'
  · subst hq
    exact .quoted .close h
  · rw [bne_iff_ne.2 hq] at h
    cases h with
    | quoted hquoted h => exact .quoted (.plain hq hb hquoted) h

end RestOfEntry

/-- Pieces cut from a text, which begins in the middle of the first of them. -/
def IsCut (depth : Nat) (inText : Bool) (cs : List Char) (pieces : List (Nat × List Char)) : Prop :=
  ∃ e es, pieces.map (·.2) = e :: es ∧ RestOfEntry depth inText e ∧
    (∀ f ∈ es, Closed false f) ∧ cs = e ++ es.flatMap (',' :: ·)

/-- Characters go to the first piece. -/
theorem isCut_of_map {x : Except LayoutError (List (Nat × List Char))} {depth' : Nat}
    {inText' : Bool} (front : List Char)
    (hx : ∀ {pieces}, x = .ok pieces → IsCut depth' inText' cs pieces)
    (hfront : ∀ {e}, RestOfEntry depth' inText' e → RestOfEntry depth inText (front ++ e))
    (h : x.map (onto front) = .ok pieces) : IsCut depth inText (front ++ cs) pieces := by
  obtain ⟨cut, hcut, rfl⟩ := exists_of_map_ok h
  obtain ⟨e, es, hpieces, he, hes, rfl⟩ := hx hcut
  obtain ⟨p, ps, rfl, rfl, rfl⟩ := List.map_eq_cons_iff.1 hpieces
  exact ⟨front ++ p.2, ps.map (·.2), rfl, hfront he, hes, (List.append_assoc _ _ _).symm⟩

theorem isCut_of_splitFrom (h : splitFrom text start i depth inText cs = .ok pieces) :
    IsCut depth inText cs pieces := by
  fun_induction splitFrom text start i depth inText cs generalizing pieces with
  | case1 => cases h
  | case2 =>
    cases h
    rename_i hin
    obtain rfl := eq_false_of_ne_true hin
    exact ⟨[], [], rfl, .top (.nil false), by simp, rfl⟩
  | case3 => cases h
  | case4 start i depth inText ih =>
    cases inText with
    | true => cases h
    | false => exact isCut_of_map ['\\'] ih (.plain (by decide)) h
  | case5 start i depth c cs ih => exact isCut_of_map ['\\', c] ih .escaped h
  | case6 start i depth inText c cs hin ih =>
    obtain rfl := eq_false_of_ne_true hin
    exact isCut_of_map ['\\'] ih (.plain (by decide)) h
  | case7 start i depth c cs hlast hnext =>
    rename_i ih
    have hb : c ≠ '\\' := by
      rintro rfl
      cases cs with
      | nil => exact hlast rfl rfl
      | cons d ds => exact hnext d ds rfl rfl
    exact isCut_of_map [c] (ih _ _) (.inLiteral hb) h
  | case8 start i depth inText cs hin =>
    rename_i ih
    obtain rfl := eq_false_of_ne_true hin
    exact isCut_of_map ['"'] (ih _ _) .literal h
  | case9 start i depth inText cs hin =>
    rename_i ih
    obtain rfl := eq_false_of_ne_true hin
    exact isCut_of_map ['('] (ih _ _) .list h
  | case10 => cases h
  | case11 start i inText cs hin depth =>
    rename_i ih
    obtain rfl := eq_false_of_ne_true hin
    exact isCut_of_map [')'] (ih _ _) (.inner (.nil true)) h
  | case12 start i depth inText c cs hlast hnext hin hquote hopen hclose hcomma _ ih =>
    obtain rfl := eq_false_of_ne_true hin
    obtain ⟨rfl, rfl⟩ : c = ',' ∧ depth = 0 := by simpa using hcomma
    obtain ⟨cut, hcut, rfl⟩ := exists_of_map_ok h
    obtain ⟨e, es, hpieces, he, hes, rfl⟩ := ih hcut
    cases he with
    | top he =>
      refine ⟨[], e :: es, by simp [hpieces], .top (.nil false), ?_, rfl⟩
      exact List.forall_mem_cons.2 ⟨he, hes⟩
  | case13 start i depth inText c cs =>
    rename_i hin hquote hopen hclose hcomma ih
    obtain rfl := eq_false_of_ne_true hin
    refine isCut_of_map [c] (ih _ _) (fun he => ?_) h
    by_cases hc : c = ','
    · subst hc
      cases depth with
      | zero => exact absurd rfl hcomma
      | succ depth => exact .comma he
    · exact .plain (by simp [isPlain, hquote, hopen, hclose, hc]) he

/-- The pieces that a text is cut into are its entries. -/
theorem exists_splitEntries_iff :
    (∃ pieces, splitEntries text = .ok pieces ∧ pieces.map (·.2) = es) ↔
      Consists text.toList es := by
  constructor
  · rintro ⟨pieces, hsplit, rfl⟩
    obtain ⟨e, es, hpieces, he, hes, htext⟩ := isCut_of_splitFrom hsplit
    rw [hpieces]
    cases he with
    | top he =>
      refine ⟨List.cons_ne_nil e es, List.forall_mem_cons.2 ⟨he, hes⟩, ?_⟩
      rw [intercalate_comma, htext]
  · rintro ⟨hne, hclosed, hjoined⟩
    obtain ⟨e, es, rfl⟩ := List.exists_cons_of_ne_nil hne
    obtain ⟨he, hes⟩ := List.forall_mem_cons.1 hclosed
    rw [intercalate_comma] at hjoined
    rw [splitEntries, ← hjoined]
    exact exists_splitFrom text 0 0 he hes

end Alias

namespace AliasSet
open Entry

variable {settings : Settings} {mode : CaseMode} {text : String} {seen : List Declared}
  {pieces : List (Nat × List Char)} {as : List Alias}

/-- Pieces are read as these aliases, whose names differ from each other and from those that were
seen before. -/
structure ReadsApart (settings : Settings) (mode : CaseMode) (seen : List Declared)
    (pieces : List (Nat × List Char)) (as : List Alias) : Prop where
  reads : List.Forall₂ (fun p a => Alias.parseEntry settings mode p.1 p.2 = .ok a) pieces as
  fresh : ∀ d ∈ seen, ∀ a ∈ as, d.key ≠ mode.fold a.name.value
  apart : as.Pairwise (fun a b => mode.fold a.name.value ≠ mode.fold b.name.value)

/-- Each of the aliases is read from one of the pieces. -/
theorem ReadsApart.exists_of_mem (h : ReadsApart settings mode seen pieces as) :
    ∀ a ∈ as, ∃ p ∈ pieces, Alias.parseEntry settings mode p.1 p.2 = .ok a := by
  have hreads := h.reads
  clear h
  induction hreads with
  | nil => exact fun a ha => absurd ha List.not_mem_nil
  | @cons p a pieces as hp _ ih =>
    refine List.forall_mem_cons.2 ⟨⟨p, List.mem_cons_self, hp⟩, fun b hb => ?_⟩
    obtain ⟨q, hq, hparse⟩ := ih b hb
    exact ⟨q, List.mem_cons_of_mem p hq, hparse⟩

/-- The first piece is read under a new name, and the others after it. -/
theorem readsApart_cons_iff {p : Nat × List Char} {a : Alias} (e : List Char) :
    ReadsApart settings mode seen (p :: pieces) (a :: as) ↔
      Alias.parseEntry settings mode p.1 p.2 = .ok a ∧
        seen.find? (fun d => d.key == mode.fold a.name.value) = none ∧
          ReadsApart settings mode (⟨mode.fold a.name.value, e, a⟩ :: seen) pieces as := by
  constructor
  · rintro ⟨hreads, hfresh, hapart⟩
    obtain ⟨ha, has⟩ := List.forall₂_cons.1 hreads
    obtain ⟨hfirst, hothers⟩ := List.pairwise_cons.1 hapart
    refine ⟨ha, ?_, has, ?_, hothers⟩
    · simpa using fun d hd => hfresh d hd a List.mem_cons_self
    · refine List.forall_mem_cons.2 ⟨hfirst, fun d hd b hb => ?_⟩
      exact hfresh d hd b (List.mem_cons_of_mem a hb)
  · rintro ⟨ha, hnew, has, hfresh, hapart⟩
    obtain ⟨hfirst, hothers⟩ := List.forall_mem_cons.1 hfresh
    refine ⟨.cons ha has, fun d hd => List.forall_mem_cons.2 ⟨?_, hothers d hd⟩,
      List.pairwise_cons.2 ⟨hfirst, hapart⟩⟩
    simpa using List.find?_eq_none.1 hnew d hd

/-- Entries are read where each is read under a name of its own. -/
theorem parseEntries_eq_ok_iff :
    parseEntries settings mode text seen pieces = .ok as ↔
      ReadsApart settings mode seen pieces as := by
  induction pieces generalizing seen as with
  | nil =>
    constructor
    · intro h
      cases h
      exact ⟨.nil, by simp, .nil⟩
    · rintro ⟨hreads, -, -⟩
      cases hreads
      rfl
  | cons p pieces ih =>
    obtain ⟨start, entry⟩ := p
    constructor
    · intro h
      obtain ⟨a, ha, htail⟩ := exists_of_bind_ok h
      dsimp only at htail
      split at htail
      · cases htail
      · next hnew =>
        obtain ⟨rest, hrest, heq⟩ := exists_of_bind_ok htail
        cases heq
        exact (readsApart_cons_iff _).2 ⟨ha, hnew, ih.1 hrest⟩
    · intro h
      cases as with
      | nil => cases h.reads
      | cons a as =>
        obtain ⟨ha, hnew, has⟩ := (readsApart_cons_iff (Text.trim entry)).1 h
        simp only [parseEntries, ha, hnew, ih.2 has, bind, Except.bind]

/-- Apart from names that are declared twice, entries are refused for the first of them that is
refused by itself. -/
theorem parseEntries_eq_error_iff {r : Rejection} (hr : ∀ e, r ≠ .parse e) :
    parseEntries settings mode text seen pieces = .error r ↔
      ∃ before p after as, pieces = before ++ p :: after ∧
        ReadsApart settings mode seen before as ∧
          Alias.parseEntry settings mode p.1 p.2 = .error r := by
  induction pieces generalizing seen with
  | nil =>
    constructor
    · intro h
      cases h
    · rintro ⟨before, p, after, as, hpieces, -⟩
      exact absurd hpieces (by simp)
  | cons q pieces ih =>
    obtain ⟨start, entry⟩ := q
    constructor
    · intro h
      rcases error_of_bind_error h with hfirst | ⟨a, ha, htail⟩
      · exact ⟨[], _, pieces, [], rfl, ⟨.nil, by simp, .nil⟩, hfirst⟩
      · dsimp only at htail
        split at htail
        · cases htail
          exact absurd rfl (hr _)
        · next hnew =>
          rcases error_of_bind_error htail with hrest | ⟨rest, -, heq⟩
          · obtain ⟨before, p, after, as, rfl, hbefore, hp⟩ := ih.1 hrest
            exact ⟨_ :: before, p, after, a :: as, rfl,
              (readsApart_cons_iff _).2 ⟨ha, hnew, hbefore⟩, hp⟩
          · cases heq
    · rintro ⟨before, p, after, as, hpieces, hbefore, hp⟩
      cases before with
      | nil =>
        cases hpieces
        simp only [parseEntries, hp, bind, Except.bind]
      | cons q before =>
        cases hpieces
        cases as with
        | nil => cases hbefore.reads
        | cons a as =>
          obtain ⟨ha, hnew, hothers⟩ := (readsApart_cons_iff (Text.trim entry)).1 hbefore
          have hrest := ih.2 ⟨before, p, after, as, rfl, hothers, hp⟩
          simp only [parseEntries, ha, hnew, hrest, bind, Except.bind]

end AliasSet

end FunctionCatalog
