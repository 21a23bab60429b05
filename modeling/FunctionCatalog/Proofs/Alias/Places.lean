import FunctionCatalog.Proofs.Alias.Openness
import FunctionCatalog.Proofs.Selector.Positions

/-
  FunctionCatalog: places in an alias text.
  The entries that a text is cut into come with the places where they start (`placed`). A text that
  does not fall into entries is refused with a place in the text (`placedFault_of_splitEntries`); an
  entry is refused with a place in the entry, counted from where the whole text starts
  (`refusedWithin_of_parseEntry`). In all of these what the error says of the place is so.
-/

namespace FunctionCatalog

/-- What a fault says of an alias text is so of `rest`, the text from the place of the fault on. -/
def LayoutFault.Marks : LayoutFault → List Char → Prop
  | .unbalancedClose, rest => rest.head? = some ')'
  | .unterminatedText, _ => True
  | .unclosed entry, rest => rest = entry

/-- What a fault says of an entry is so of `rest`, the entry from the place of the fault on. -/
def AliasFault.Marks : AliasFault → List Char → Prop
  | .emptyEntry, rest => rest = []
  | .badCharacter c, rest => rest.head? = some c
  | .badName _, rest => rest ≠ []
  | .badSelector cause, rest => cause.PointsInto ∧ cause.text.toList <:+: rest
  | .trailing t, rest => rest = t

namespace Alias

variable {settings : Settings} {mode : CaseMode} {text : String} {offset start i depth : Nat}
  {inText : Bool} {name : Name} {e entry target chars rest cs : List Char} {es : List (List Char)}
  {pieces : List (Nat × List Char)} {p : Nat × List Char} {fault : AliasFault} {r : Rejection}

/-! ## Where entries start -/

/-- Entries with the places where they start, the first one at `i` and each other one behind a
comma. -/
def placed (i : Nat) : List (List Char) → List (Nat × List Char)
  | [] => []
  | e :: es => (i, e) :: placed (i + e.length + 1) es

theorem splitFrom_placed (text : String) (start i : Nat) (he : Closed false e)
    (hes : ∀ f ∈ es, Closed false f) :
    splitFrom text start i 0 false (e ++ es.flatMap (',' :: ·)) =
      .ok ((start, e) :: placed (i + e.length + 1) es) := by
  induction es generalizing start i e with
  | nil =>
    rw [List.flatMap_nil, splitFrom_append he (by simp)]
    simp [splitFrom, Except.map, onto, placed]
  | cons f es ih =>
    obtain ⟨hf, hes⟩ := List.forall_mem_cons.1 hes
    rw [List.flatMap_cons, splitFrom_append he (by simp), List.cons_append, splitFrom_separator,
      ih (i + e.length + 1) (i + e.length + 1) hf hes]
    simp [Except.map, onto, placed]

/-- The pieces of a text are its entries, each with its place. -/
theorem placed_of_splitEntries (h : splitEntries text = .ok pieces) :
    Consists text.toList (pieces.map (·.2)) ∧ pieces = placed 0 (pieces.map (·.2)) := by
  have hconsists := exists_splitEntries_iff.1 ⟨pieces, h, rfl⟩
  refine ⟨hconsists, ?_⟩
  obtain ⟨hne, hclosed, hjoined⟩ := hconsists
  generalize pieces.map (·.2) = es at hne hclosed hjoined ⊢
  obtain ⟨e, es, rfl⟩ := List.exists_cons_of_ne_nil hne
  obtain ⟨he, hes⟩ := List.forall_mem_cons.1 hclosed
  rw [splitEntries, ← hjoined, intercalate_comma, splitFrom_placed text 0 0 he hes] at h
  exact (Except.ok.inj h).symm

/-- A text in front of an entry: nothing, or what ends with a comma. -/
def IsFront (before : List Char) : Prop :=
  before = [] ∨ ∃ front, before = front ++ [',']

/-- An entry stands in the text at its place. -/
theorem exists_sides_of_mem_placed (h : p ∈ placed i (e :: es)) :
    ∃ before after, e ++ es.flatMap (',' :: ·) = before ++ (p.2 ++ after) ∧
      p.1 = i + before.length ∧ IsFront before := by
  induction es generalizing i e with
  | nil =>
    obtain rfl := List.mem_singleton.1 h
    exact ⟨[], [], by simp, rfl, .inl rfl⟩
  | cons f es ih =>
    rcases List.mem_cons.1 h with rfl | h
    · exact ⟨[], _, rfl, rfl, .inl rfl⟩
    · obtain ⟨before, after, hsides, hp, hfront⟩ := ih h
      refine ⟨e ++ ',' :: before, after, ?_, ?_, .inr ?_⟩
      · rw [List.flatMap_cons, List.cons_append, hsides, List.append_assoc, List.cons_append]
      · rw [hp, List.length_append, List.length_cons]
        omega
      · rcases hfront with rfl | ⟨front, rfl⟩
        · exact ⟨e, rfl⟩
        · exact ⟨e ++ ',' :: front, by simp⟩

theorem exists_sides_of_splitEntries (h : splitEntries text = .ok pieces) (hp : p ∈ pieces) :
    ∃ before after, text.toList = before ++ (p.2 ++ after) ∧ p.1 = before.length ∧
      IsFront before := by
  obtain ⟨⟨hne, -, hjoined⟩, hplaced⟩ := placed_of_splitEntries h
  rw [hplaced] at hp
  generalize pieces.map (·.2) = es at hne hjoined hp
  obtain ⟨e, es, rfl⟩ := List.exists_cons_of_ne_nil hne
  obtain ⟨before, after, hsides, hstart, hfront⟩ := exists_sides_of_mem_placed hp
  refine ⟨before, after, ?_, hstart.trans (Nat.zero_add _), hfront⟩
  rw [← hjoined, intercalate_comma, hsides]

/-! ## Texts that do not fall into entries -/

/-- The characters are what is left of the text at a place `i`, behind the start of an entry. -/
structure LeftAt (text : String) (start i : Nat) (cs : List Char) : Prop where
  drop_eq : text.toList.drop i = cs
  start_le : start ≤ i
  le_length : i ≤ text.toList.length

theorem LeftAt.tail {c : Char} (h : LeftAt text start i (c :: cs)) :
    LeftAt text start (i + 1) cs where
  drop_eq := by rw [← List.drop_drop, h.drop_eq, List.drop_succ_cons, List.drop_zero]
  start_le := Nat.le_succ_of_le h.start_le
  le_length := by
    refine Nat.lt_of_not_le fun hle => ?_
    have hnil := List.drop_eq_nil_of_le hle
    rw [h.drop_eq] at hnil
    cases hnil

theorem LeftAt.restart (h : LeftAt text start i cs) : LeftAt text i i cs :=
  ⟨h.drop_eq, Nat.le_refl i, h.le_length⟩

/-- A text that is not cut is refused for what is at the place of the error. -/
def PlacedFault (text : String) (r : LayoutError) : Prop :=
  r.text = text ∧ r.position ≤ text.toList.length ∧ r.fault.Marks (text.toList.drop r.position)

theorem placedFault_of_splitFrom {r : LayoutError} (hcs : LeftAt text start i cs)
    (h : splitFrom text start i depth inText cs = .error r) : PlacedFault text r := by
  fun_induction splitFrom text start i depth inText cs with
  | case1 start i depth =>
    cases h
    exact ⟨rfl, Nat.le_trans hcs.start_le hcs.le_length, trivial⟩
  | case2 => cases h
  | case3 start i depth inText hin hdepth =>
    cases h
    exact ⟨rfl, Nat.le_trans hcs.start_le hcs.le_length, rfl⟩
  | case4 start i depth inText ih => exact ih hcs.tail (error_of_map_error h)
  | case5 start i depth c cs ih => exact ih hcs.tail.tail (error_of_map_error h)
  | case6 start i depth inText c cs hin ih => exact ih hcs.tail (error_of_map_error h)
  | case7 start i depth c cs hlast hnext =>
    rename_i ih
    exact ih _ _ hcs.tail (error_of_map_error h)
  | case8 start i depth inText cs hin =>
    rename_i ih
    exact ih _ _ hcs.tail (error_of_map_error h)
  | case9 start i depth inText cs hin =>
    rename_i ih
    exact ih _ _ hcs.tail (error_of_map_error h)
  | case10 start i inText cs hin =>
    cases h
    exact ⟨rfl, hcs.le_length, congrArg List.head? hcs.drop_eq⟩
  | case11 start i inText cs hin depth =>
    rename_i ih
    exact ih _ _ hcs.tail (error_of_map_error h)
  | case12 start i depth inText c cs hlast hnext hin hquote hopen hclose hcomma _ ih =>
    exact ih hcs.tail.restart (error_of_map_error h)
  | case13 start i depth inText c cs =>
    rename_i ih
    exact ih _ _ hcs.tail (error_of_map_error h)

/-- A text that does not fall into entries is wrong at the place of the error. -/
theorem placedFault_of_splitEntries {r : LayoutError} (h : splitEntries text = .error r) :
    PlacedFault text r :=
  placedFault_of_splitFrom ⟨rfl, Nat.le_refl 0, Nat.zero_le _⟩ h

/-! ## Entries that are refused -/

/-- Where an entry that starts at `offset` is refused as malformed, the error carries the entry and
marks a place in it, counted from `offset`. -/
def RefusedWithin (offset : Nat) (entry : List Char) (r : Rejection) : Prop :=
  ∀ e, r = .parse e → ∃ fault front rest, entry = front ++ rest ∧
    e = .alias ⟨fault, String.ofList entry, offset + front.length⟩ ∧ fault.Marks rest

theorem refusedWithin_refuse {α : Type}
    (h : (refuse offset entry fault rest : Except Rejection α) = .error r) (hrest : rest <:+ entry)
    (hmarks : fault.Marks rest) : RefusedWithin offset entry r := by
  obtain ⟨front, rfl⟩ := hrest
  cases h
  rintro _ ⟨⟩
  refine ⟨fault, front, rest, rfl, ?_, hmarks⟩
  simp

/-- An entry that is refused for the first character of what is left of it. -/
theorem refusedWithin_refuseStart {α : Type}
    (h : (refuseStart offset entry rest : Except Rejection α) = .error r) (hrest : rest <:+ entry)
    (hne : rest ≠ []) : RefusedWithin offset entry r := by
  refine refusedWithin_refuse h hrest ?_
  obtain ⟨c, cs, rfl⟩ := List.exists_cons_of_ne_nil hne
  rfl

theorem suffix_trimLeft (cs : List Char) : Text.trimLeft cs <:+ cs :=
  List.dropWhile_suffix _

theorem suffix_takeName (cs : List Char) : (takeName cs).2 <:+ cs :=
  ⟨_, takeName_append cs⟩

theorem ne_nil_of_not_isSetApart (h : ¬ isSetApart rest = true) : rest ≠ [] := by
  rintro rfl
  exact h rfl

theorem refusedWithin_of_readName (h : readName settings mode offset entry = .error r) :
    RefusedWithin offset entry r := by
  have hfront := suffix_trimLeft entry
  unfold readName at h
  dsimp only at h
  split at h
  · exact refusedWithin_refuse h List.nil_suffix rfl
  · next hne =>
    split at h
    · exact refusedWithin_refuseStart h hfront hne
    · split at h
      · split at h
        · cases h
        · exact refusedWithin_refuse h hfront hne
      · next hapart =>
        exact refusedWithin_refuseStart h ((suffix_takeName _).trans hfront)
          (ne_nil_of_not_isSetApart hapart)

/-- In a closed text the parenthesis behind a name is closed. -/
theorem exists_takeParens (hclosed : Closed false target)
    (hopen : (Text.trimLeft (takeName target).2).head? = some '(') :
    ∃ b after, Text.trimLeft (takeName target).2 = '(' :: (b ++ ')' :: after) ∧ Closed true b ∧
      takeParens 0 false (Text.trimLeft (takeName target).2) =
        some ('(' :: (b ++ [')']), after) := by
  obtain ⟨ws, hws, hrest⟩ := Text.exists_trimLeft (takeName target).2
  obtain ⟨parens, hparens⟩ := List.head?_eq_some_iff.1 hopen
  have hplain : ∀ c ∈ (takeName target).1 ++ ws, isPlain c = true := by
    intro c hc
    rcases List.mem_append.1 hc with hc | hc
    · have hne : (takeName target).1 ≠ [] := List.ne_nil_of_mem hc
      exact isPlain_of_isNamePart (isNamePart_of_isName (isName_takeName hne) c hc)
    · exact isPlain_of_isBlank (List.all_eq_true.1 hws c hc)
  have hlist : Closed false ('(' :: parens) := by
    apply Closed.of_append_of_all_isPlain hplain
    rwa [List.append_assoc, ← hparens, ← hrest, takeName_append]
  obtain ⟨b, after, rfl, hb⟩ := hlist.exists_of_open
  rw [hparens]
  exact ⟨b, after, rfl, hb, takeParens_list hb after⟩

theorem refusedWithin_of_takeTarget (htarget : target <:+ entry) (hne : target ≠ [])
    (hclosed : Closed false target) (h : takeTarget offset entry target = .error r) :
    RefusedWithin offset entry r := by
  unfold takeTarget at h
  dsimp only at h
  split at h
  · exact refusedWithin_refuseStart h htarget hne
  · split at h
    · next hopen =>
      obtain ⟨b, after, -, -, htake⟩ := exists_takeParens hclosed hopen
      rw [htake] at h
      cases h
    · split at h
      · cases h
      · next hapart =>
        exact refusedWithin_refuseStart h ((suffix_takeName target).trans htarget)
          (ne_nil_of_not_isSetApart hapart)

/-- A target that is no selector is refused with the error of the selector. -/
theorem refusedWithin_of_readTarget (htarget : target <:+ entry) (hne : target ≠ [])
    (hchars : chars <+: target)
    (h : readTarget settings mode offset entry target chars = .error r) :
    RefusedWithin offset entry r := by
  unfold readTarget at h
  split at h
  · cases h
  · next cause hparse =>
    refine refusedWithin_refuse h htarget ?_
    rcases Selector.pointsInto_of_parse hparse with hpoints | hpoints
    · obtain ⟨f, heq, htext, hinto⟩ := hpoints _ rfl
      cases heq
      refine ⟨hinto, ?_⟩
      rw [htext, String.toList_ofList]
      exact hchars.isInfix
    · obtain ⟨f, heq, htext, hinto⟩ := hpoints _ rfl
      cases heq
      refine ⟨hinto, ?_⟩
      rw [htext, String.toList_ofList, String.toList_ofList]
      exact (suffix_takeName chars).isInfix.trans hchars.isInfix
  · exact refusedWithin_refuse h htarget hne
  · next cause hselector _ hparse =>
    cases h
    rintro e rfl
    rcases Selector.of_parse_error hparse with ⟨heq, -⟩ | ⟨e, heq⟩ | ⟨e, heq⟩
    · cases heq
    · cases heq
    · exact absurd heq (hselector e)

theorem refusedWithin_of_readToken (hrest : rest <:+ entry)
    (h : readToken offset entry rest = .error r) : RefusedWithin offset entry r := by
  have htoken := (suffix_trimLeft rest).trans hrest
  unfold readToken at h
  dsimp only at h
  split at h
  · cases h
  · next hne =>
    split at h
    · exact refusedWithin_refuseStart h htoken hne
    · split at h
      · cases h
      · exact refusedWithin_refuse h
          (((suffix_trimLeft _).trans (List.dropWhile_suffix _)).trans htoken) rfl

theorem refusedWithin_of_make {s : Option Selector} {token : Option String}
    (h : make name s token = .error r) : RefusedWithin offset entry r := by
  rintro e rfl
  unfold make at h
  repeat' split at h
  all_goals cases h

/-- What is left of a closed entry behind its name is closed. -/
theorem closed_of_readName (hclosed : Closed false entry)
    (h : readName settings mode offset entry = .ok (name, rest)) :
    Closed false (Text.trimLeft rest) ∧ Text.trimLeft rest <:+ entry := by
  rcases readName_cases settings mode offset entry with
    ⟨e, hfails⟩ | ⟨ws, n, tail, m, rfl, hws, hmake, -, hname⟩
  · cases h.symm.trans hfails
  · cases h.symm.trans hname
    obtain ⟨gap, hgap, hrest⟩ := Text.exists_trimLeft rest
    have hn := Name.isName_of_make hmake
    have hplain : ∀ c ∈ ws ++ (n ++ gap), isPlain c = true := by
      intro c hc
      simp only [List.mem_append] at hc
      rcases hc with hc | hc | hc
      · exact isPlain_of_isBlank (List.all_eq_true.1 hws c hc)
      · exact isPlain_of_isNamePart (isNamePart_of_isName hn c hc)
      · exact isPlain_of_isBlank (List.all_eq_true.1 hgap c hc)
    have hsplit : ws ++ (n ++ rest) = (ws ++ (n ++ gap)) ++ Text.trimLeft rest := by
      rw [List.append_assoc, List.append_assoc, ← hrest]
    rw [hsplit] at hclosed ⊢
    exact ⟨Closed.of_append_of_all_isPlain hplain hclosed, List.suffix_append _ _⟩

/-- A target is taken from the front of a text, and what follows it is the rest of the text. -/
theorem sides_of_takeTarget (hclosed : Closed false target)
    (h : takeTarget offset entry target = .ok (chars, rest)) : target = chars ++ rest := by
  rcases takeTarget_cases offset entry hclosed with ⟨e, hfails⟩ | ⟨cs, tail, rfl, hbefore⟩
  · cases h.symm.trans hfails
  · cases h.symm.trans (takeTarget_of_before hbefore)
    rfl

/-- A closed entry is refused as malformed at a place in it. -/
theorem refusedWithin_of_parseEntry (hclosed : Closed false entry)
    (h : parseEntry settings mode offset entry = .error r) : RefusedWithin offset entry r := by
  rcases error_of_bind_error h with hname | ⟨⟨name, tail⟩, hname, htail⟩
  · exact refusedWithin_of_readName hname
  · obtain ⟨htarget, hsuffix⟩ := closed_of_readName hclosed hname
    dsimp only at htail
    split at htail
    · exact refusedWithin_of_make htail
    · next hne =>
      rcases error_of_bind_error htail with htake | ⟨⟨chars, rest⟩, htake, htail⟩
      · exact refusedWithin_of_takeTarget hsuffix hne htarget htake
      · have hsides := sides_of_takeTarget htarget htake
        rcases error_of_bind_error htail with hread | ⟨s, -, htail⟩
        · exact refusedWithin_of_readTarget hsuffix hne ⟨rest, hsides.symm⟩ hread
        · rcases error_of_bind_error htail with htoken | ⟨token, -, hmake⟩
          · have hrest : rest <:+ entry := List.IsSuffix.trans ⟨chars, hsides.symm⟩ hsuffix
            exact refusedWithin_of_readToken hrest htoken
          · exact refusedWithin_of_make hmake

end Alias

end FunctionCatalog
