import FunctionCatalog.Proofs.Alias.Joining

/-
  FunctionCatalog: what a text leaves open.
  A text read from its front comes to a parenthesis that closes nothing (`Stray`), or at its end
  some parentheses are open and perhaps a literal (`Opens`). An alias text is cut into entries if
  nothing is open at its end, and is refused in the other cases for just that reason
  (`splitEntries_error_iff`). The commas that stay in an entry stand where something is open
  (`exists_opens_of_comma`).
-/

namespace FunctionCatalog

/-- The characters from just past the opening quote of a literal that does not end. -/
inductive Unfinished : List Char → Prop
  | nil : Unfinished []
  | backslash : Unfinished ['\\']
  | escaped {cs : List Char} (c : Char) (h : Unfinished cs) : Unfinished ('\\' :: c :: cs)
  | plain {c : Char} {cs : List Char} (hq : c ≠ '"') (hb : c ≠ '\\') (h : Unfinished cs) :
      Unfinished (c :: cs)

/-- A text that leaves so many parentheses open and, if `inText` says so, a literal. -/
inductive Opens : Nat → Bool → List Char → Prop
  | closed {cs : List Char} (h : Closed true cs) : Opens 0 false cs
  | literal {a b : List Char} (ha : Closed true a) (hb : Unfinished b) :
      Opens 0 true (a ++ '"' :: b)
  | list {depth : Nat} {inText : Bool} {a cs : List Char} (ha : Closed true a)
      (h : Opens depth inText cs) : Opens (depth + 1) inText (a ++ '(' :: cs)

/-- A parenthesis closes nothing. -/
def Stray (cs : List Char) : Prop :=
  ∃ a b, cs = a ++ ')' :: b ∧ Closed true a

variable {a b cs : List Char} {depth : Nat} {inText : Bool}

/-! ## Every text is one or the other -/

/-- A literal ends, or it goes on to the end of the text. -/
theorem exists_quoted_or_unfinished (cs : List Char) :
    (∃ q rest, cs = q ++ rest ∧ Quoted q) ∨ Unfinished cs := by
  match cs with
  | [] => exact .inr .nil
  | c :: cs =>
    by_cases hb : c = '\\'
    · subst hb
      match cs with
      | [] => exact .inr .backslash
      | d :: cs =>
        rcases exists_quoted_or_unfinished cs with ⟨q, rest, rfl, hq⟩ | h
        · exact .inl ⟨_, rest, rfl, .escaped d hq⟩
        · exact .inr (.escaped d h)
    · by_cases hc : c = '"'
      · exact .inl ⟨['"'], cs, by simp [hc], .close⟩
      · rcases exists_quoted_or_unfinished cs with ⟨q, rest, rfl, hq⟩ | h
        · exact .inl ⟨_, rest, rfl, .plain hc hb hq⟩
        · exact .inr (.plain hc hb h)

theorem Stray.prepend (ha : Closed true a) (h : Stray b) : Stray (a ++ b) := by
  obtain ⟨front, rest, rfl, hfront⟩ := h
  exact ⟨a ++ front, rest, (List.append_assoc _ _ _).symm, ha.append hfront⟩

theorem Opens.prepend (ha : Closed true a) (h : Opens depth inText b) :
    Opens depth inText (a ++ b) := by
  cases h with
  | closed h => exact .closed (ha.append h)
  | literal hb hbody =>
    rw [← List.append_assoc]
    exact .literal (ha.append hb) hbody
  | list hb h =>
    rw [← List.append_assoc]
    exact .list (ha.append hb) h

theorem stray_or_opens_prepend (ha : Closed true a)
    (h : Stray b ∨ ∃ depth inText, Opens depth inText b) :
    Stray (a ++ b) ∨ ∃ depth inText, Opens depth inText (a ++ b) := by
  rcases h with h | ⟨depth, inText, h⟩
  · exact .inl (h.prepend ha)
  · exact .inr ⟨depth, inText, h.prepend ha⟩

/-- A parenthesis of a text closes nothing, or it can be told what the text leaves open. -/
theorem stray_or_opens (cs : List Char) : Stray cs ∨ ∃ depth inText, Opens depth inText cs := by
  -- a literal or a list is taken as a whole, so the text that remains is any shorter one
  generalize hlen : cs.length = n
  induction n using Nat.strongRecOn generalizing cs with
  | ind n ih =>
    cases cs with
    | nil => exact .inr ⟨0, false, .closed (.nil true)⟩
    | cons c cs =>
      subst hlen
      have htail := ih cs.length (by simp) cs rfl
      cases hplain : isPlain c with
      | true => exact stray_or_opens_prepend (a := [c]) (.plain hplain (.nil true)) htail
      | false =>
        have hcases : c = '"' ∨ c = '(' ∨ c = ')' ∨ c = ',' := by
          simpa only [isPlain, Bool.and_eq_false_iff, bne_eq_false_iff_eq, or_assoc] using hplain
        rcases hcases with rfl | rfl | rfl | rfl
        · rcases exists_quoted_or_unfinished cs with ⟨q, rest, rfl, hq⟩ | h
          · have hlen : rest.length < ('"' :: (q ++ rest)).length := by
              simp only [List.length_cons, List.length_append]
              omega
            have hrest := ih rest.length hlen rest rfl
            have hall := stray_or_opens_prepend (.literal hq (.nil true)) hrest
            rwa [List.append_nil] at hall
          · exact .inr ⟨0, true, .literal (.nil true) h⟩
        · rcases htail with ⟨inner, rest, rfl, hinner⟩ | ⟨depth, inText, h⟩
          · have hlen : rest.length < ('(' :: (inner ++ ')' :: rest)).length := by
              simp only [List.length_cons, List.length_append]
              omega
            have hrest := ih rest.length hlen rest rfl
            have hall := stray_or_opens_prepend (.list hinner (.nil true)) hrest
            rwa [List.cons_append, List.append_assoc] at hall
          · exact .inr ⟨depth + 1, inText, .list (.nil true) h⟩
        · exact .inl ⟨[], cs, rfl, .nil true⟩
        · exact stray_or_opens_prepend (a := [',']) (.comma (.nil true)) htail

namespace Alias

variable {text : String} {start i : Nat}

/-! ## What the cut makes of it -/

/-- An error behind closed texts with commas between them is an error of the whole. -/
theorem exists_splitFrom_error (text : String) (start i : Nat) (ha : Closed true a) :
    ∃ start', ∀ rest r, splitFrom text start' (i + a.length) 0 false rest = .error r →
      splitFrom text start i 0 false (a ++ rest) = .error r := by
  obtain ⟨es, hne, hclosed, rfl⟩ := exists_consists ha
  clear ha
  induction es generalizing start i with
  | nil => exact absurd rfl hne
  | cons e es ih =>
    obtain ⟨he, hes⟩ := List.forall_mem_cons.1 hclosed
    cases es with
    | nil =>
      refine ⟨start, fun rest r h => ?_⟩
      rw [List.intercalate_singleton] at h ⊢
      rw [splitFrom_append he (by simp), h]
      rfl
    | cons f es =>
      obtain ⟨start', hstart⟩ :=
        ih (i + e.length + 1) (i + e.length + 1) (List.cons_ne_nil f es) hes
      have hjoin : [','].intercalate (e :: f :: es) = e ++ ',' :: [','].intercalate (f :: es) := by
        rw [List.intercalate_cons_cons, List.append_assoc, List.singleton_append]
      refine ⟨start', fun rest r h => ?_⟩
      rw [hjoin] at h ⊢
      rw [List.append_assoc, List.cons_append, splitFrom_append he (by simp), splitFrom_separator,
        hstart rest r]
      · rfl
      · rw [← h, List.length_append, List.length_cons]
        congr 1
        omega

theorem splitFrom_unfinished (h : Unfinished b) :
    splitFrom text start i depth true b = .error ⟨.unterminatedText, text, start⟩ := by
  induction h generalizing i with
  | nil => rw [splitFrom, if_pos rfl]
  | backslash => rw [splitFrom, splitFrom, if_pos rfl]; rfl
  | escaped c _ ih => rw [splitFrom, if_pos rfl, ih]; rfl
  | @plain c cs hq hb _ ih =>
    have hin : (c != '"') = true := bne_iff_ne.2 hq
    rw [splitFrom_cons hb]
    dsimp only
    rw [if_pos rfl, hin, ih]
    rfl

/-- Inside of a parenthesis that no one closes whatever is open is an error. -/
theorem splitFrom_opens (h : Opens depth inText cs) (text : String) (start i k : Nat) :
    splitFrom text start i (k + 1) false cs =
      .error ⟨if inText then .unterminatedText else .unclosed (text.toList.drop start), text,
        start⟩ := by
  induction h generalizing i k with
  | @closed cs h =>
    rw [← List.append_nil cs, splitFrom_append h (fun _ => Nat.succ_pos k), splitFrom,
      if_neg Bool.false_ne_true, if_neg (Nat.succ_ne_zero k)]
    rfl
  | literal ha hb =>
    rw [splitFrom_append ha (fun _ => Nat.succ_pos k), splitFrom_quote, splitFrom_unfinished hb]
    rfl
  | list ha _ ih =>
    rw [splitFrom_append ha (fun _ => Nat.succ_pos k), splitFrom_open, ih]
    rfl

/-- A text that closes all it opens is cut. -/
theorem exists_splitEntries_of_closed (h : Closed true text.toList) :
    ∃ pieces, splitEntries text = .ok pieces := by
  obtain ⟨es, hes⟩ := exists_consists h
  obtain ⟨pieces, hpieces, -⟩ := exists_splitEntries_iff.2 hes
  exact ⟨pieces, hpieces⟩

theorem splitEntries_of_stray (htext : text.toList = a ++ ')' :: b) (ha : Closed true a) :
    splitEntries text = .error ⟨.unbalancedClose, text, a.length⟩ := by
  obtain ⟨start, hstart⟩ := exists_splitFrom_error text 0 0 ha
  rw [splitEntries, htext]
  refine hstart _ _ ?_
  rw [splitFrom_cons (by decide), Nat.zero_add]
  rfl

/-- What is left open is an error of the entry that it stands in. -/
theorem exists_splitFrom_of_opens (text : String) (start i : Nat) (h : Opens depth inText cs)
    (hopen : 0 < depth ∨ inText = true) :
    ∃ start', splitFrom text start i 0 false cs =
      .error ⟨if inText then .unterminatedText else .unclosed (text.toList.drop start'), text,
        start'⟩ := by
  cases h with
  | closed h => simp at hopen
  | literal ha hb =>
    obtain ⟨start', hstart⟩ := exists_splitFrom_error text start i ha
    refine ⟨start', hstart _ _ ?_⟩
    rw [splitFrom_quote, splitFrom_unfinished hb]
    rfl
  | list ha h =>
    obtain ⟨start', hstart⟩ := exists_splitFrom_error text start i ha
    refine ⟨start', hstart _ _ ?_⟩
    rw [splitFrom_open, splitFrom_opens h]
    rfl

/-- A text is refused if a parenthesis of it closes nothing, or if it leaves a literal or a
parenthesis open. -/
theorem splitEntries_error_iff :
    (∃ e, splitEntries text = .error e) ↔
      Stray text.toList ∨ (∃ depth, Opens depth true text.toList) ∨
        ∃ depth, Opens (depth + 1) false text.toList := by
  constructor
  · rintro ⟨e, he⟩
    rcases stray_or_opens text.toList with h | ⟨depth, inText, h⟩
    · exact .inl h
    · cases inText with
      | true => exact .inr (.inl ⟨depth, h⟩)
      | false =>
        cases depth with
        | succ depth => exact .inr (.inr ⟨depth, h⟩)
        | zero =>
          cases h with
          | closed h =>
            obtain ⟨pieces, hpieces⟩ := exists_splitEntries_of_closed h
            cases he.symm.trans hpieces
  · rintro (⟨a, b, htext, ha⟩ | ⟨depth, h⟩ | ⟨depth, h⟩)
    · exact ⟨_, splitEntries_of_stray htext ha⟩
    · obtain ⟨start, hstart⟩ := exists_splitFrom_of_opens text 0 0 h (.inr rfl)
      exact ⟨_, hstart⟩
    · obtain ⟨start, hstart⟩ := exists_splitFrom_of_opens text 0 0 h (.inl (Nat.succ_pos depth))
      exact ⟨_, hstart⟩

/-- A comma stays in an entry only where a parenthesis or a literal is open. -/
theorem exists_opens_of_comma (h : Closed false (a ++ ',' :: b)) :
    ∃ depth inText, Opens depth inText a ∧ (0 < depth ∨ inText = true) := by
  have hconsists := consists_singleton h
  have hcut : ∃ pieces, splitEntries (String.ofList (a ++ ',' :: b)) = .ok pieces := by
    rw [← String.toList_ofList (l := a ++ ',' :: b)] at hconsists
    obtain ⟨pieces, hpieces, -⟩ := exists_splitEntries_iff.2 hconsists
    exact ⟨pieces, hpieces⟩
  rcases stray_or_opens a with ⟨front, rest, rfl, hfront⟩ | ⟨depth, inText, hopens⟩
  · -- the text would be refused for that parenthesis
    obtain ⟨pieces, hpieces⟩ := hcut
    have htext : (String.ofList ((front ++ ')' :: rest) ++ ',' :: b)).toList =
        front ++ ')' :: (rest ++ ',' :: b) := by
      rw [String.toList_ofList, List.append_assoc, List.cons_append]
    cases hpieces.symm.trans (splitEntries_of_stray htext hfront)
  · refine ⟨depth, inText, hopens, ?_⟩
    cases hopens with
    | literal => exact .inr rfl
    | list => exact .inl (Nat.succ_pos _)
    | closed ha =>
      -- the comma would lie between two entries
      obtain ⟨es₁, es₂, heq, h₁, h₂⟩ := hconsists.exists_append ha
      have hlen := congrArg List.length heq
      have h₁ := List.length_pos_iff.2 h₁.ne_nil
      have h₂ := List.length_pos_iff.2 h₂.ne_nil
      simp only [List.length_append, List.length_singleton] at hlen
      omega

end Alias

end FunctionCatalog
