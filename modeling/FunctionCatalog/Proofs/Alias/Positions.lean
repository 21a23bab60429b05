import FunctionCatalog.Proofs.Alias.Places

/-
  FunctionCatalog: where errors point.
  An error of a parameter list or of a selector points into the text that it carries. An error of an
  alias text carries the whole text or one entry, but its place is counted from the start of the
  whole text in both cases; so it points into the entry only if that is the first one, and is to be
  counted from where the entry starts in general (`errors_point`).
-/

namespace FunctionCatalog

namespace ParseError

/-- What an error says of its place is so of `rest`, the text from there on. -/
def Marks : ParseError → List Char → Prop
  | .info _, _ => True
  | .selector e, rest => e.fault.Marks rest
  | .alias e, rest => e.fault.Marks rest
  | .layout e, rest => e.fault.Marks rest
  | .duplicateAlias _ _ _ _ _, _ => True

/-- Counted from `offset` characters in front of the text that the error carries, its place is in
that text, and what the error says of it is so. -/
def PointsFrom (offset : Nat) (e : ParseError) : Prop :=
  ∀ i, e.position = some i →
    ∃ k, i = offset + k ∧ k ≤ e.text.toList.length ∧ e.Marks (e.text.toList.drop k)

/-- The place of the error is in the text that it carries, and what it says of it is so. -/
def PointsInto (e : ParseError) : Prop :=
  e.PointsFrom 0

end ParseError

/-- A malformed text is refused with an error that carries it and points into it. -/
theorem Rejection.PointsInto.of_parse {text : String} {e : ParseError}
    (h : Rejection.PointsInto text (.parse e)) : e.text = text ∧ e.PointsInto := by
  obtain ⟨f, rfl, htext, hinto⟩ := h e rfl
  refine ⟨htext, fun i hi => ?_⟩
  obtain ⟨hle, hmarks⟩ := hinto i hi
  exact ⟨i, (Nat.zero_add i).symm, hle, hmarks⟩

namespace AliasSet

variable {settings : Settings} {mode : CaseMode} {text : String} {seen : List Declared}
  {pieces : List (Nat × List Char)} {e : ParseError}

/-- Entries are malformed if one of them is, or for a name that is declared again by one of them. -/
theorem of_parseEntries_error
    (h : parseEntries settings mode text seen pieces = .error (.parse e)) :
    ∃ p ∈ pieces, Alias.parseEntry settings mode p.1 p.2 = .error (.parse e) ∨
      ∃ name entry earlier, e = .duplicateAlias name entry earlier text p.1 := by
  induction pieces generalizing seen with
  | nil => cases h
  | cons p pieces ih =>
    rcases error_of_bind_error h with hfirst | ⟨a, -, htail⟩
    · exact ⟨p, List.mem_cons_self, .inl hfirst⟩
    · dsimp only at htail
      split at htail
      · cases htail
        exact ⟨p, List.mem_cons_self, .inr ⟨_, _, _, rfl⟩⟩
      · rcases error_of_bind_error htail with hrest | ⟨as, -, hok⟩
        · obtain ⟨q, hq, hfails⟩ := ih hrest
          exact ⟨q, List.mem_cons_of_mem p hq, hfails⟩
        · cases hok

/-- A malformed text does not fall into entries, or has a malformed entry or one that declares a
name again. -/
theorem of_parse_error (h : parse settings mode text = .error (.parse e)) :
    (∃ r, Alias.splitEntries text = .error r ∧ e = .layout r) ∨
      ∃ pieces, Alias.splitEntries text = .ok pieces ∧ ∃ p ∈ pieces,
        Alias.parseEntry settings mode p.1 p.2 = .error (.parse e) ∨
          ∃ name entry earlier, e = .duplicateAlias name entry earlier text p.1 := by
  cases hblank : Text.allBlank text.toList with
  | true =>
    rw [parse, if_pos hblank] at h
    cases h
  | false =>
    cases hsplit : Alias.splitEntries text with
    | error r =>
      rw [parse, if_neg (by simp [hblank]), hsplit] at h
      cases h
      exact .inl ⟨r, rfl, rfl⟩
    | ok pieces =>
      rw [parse_of_splitEntries hblank hsplit] at h
      rcases error_of_bind_error h with hentries | ⟨as, has, hof⟩
      · exact .inr ⟨pieces, rfl, of_parseEntries_error hentries⟩
      · have hconsists := Alias.exists_splitEntries_iff.1 ⟨pieces, hsplit, rfl⟩
        obtain ⟨s, hs⟩ := exists_of_readsApart (parseEntries_eq_ok_iff.1 has)
          (List.forall_mem_map.1 hconsists.closed)
        cases hof.symm.trans hs

/-- A layout error is of the whole text. -/
theorem pointsInto_of_splitEntries {r : LayoutError} (h : Alias.splitEntries text = .error r) :
    (ParseError.layout r).text = text ∧ (ParseError.layout r).PointsInto := by
  obtain ⟨htext, hle, hmarks⟩ := Alias.placedFault_of_splitEntries h
  refine ⟨htext, ?_⟩
  rintro _ ⟨⟩
  refine ⟨r.position, (Nat.zero_add _).symm, ?_⟩
  show r.position ≤ r.text.toList.length ∧ r.fault.Marks (r.text.toList.drop r.position)
  rw [htext]
  exact ⟨hle, hmarks⟩

/-- The error of an entry carries the entry and is counted from `offset` characters in front of
it. -/
theorem pointsFrom_of_parseEntry {offset : Nat} {entry : List Char} (hclosed : Closed false entry)
    (h : Alias.parseEntry settings mode offset entry = .error (.parse e)) :
    (∃ a, e = .alias a) ∧ e.text.toList = entry ∧ e.PointsFrom offset := by
  obtain ⟨fault, front, rest, rfl, rfl, hmarks⟩ :=
    Alias.refusedWithin_of_parseEntry hclosed h e rfl
  have htext : (ParseError.alias ⟨fault, String.ofList (front ++ rest),
      offset + front.length⟩).text.toList = front ++ rest := String.toList_ofList
  refine ⟨⟨_, rfl⟩, htext, ?_⟩
  rintro _ ⟨⟩
  refine ⟨front.length, rfl, ?_⟩
  rw [htext, List.drop_left]
  exact ⟨by simp, hmarks⟩

/-- The text that an error of an alias text carries stands in that text behind `before`, which is
nothing unless the error is of an entry behind a comma, and the place of the error is counted from
the start of `before`. -/
theorem exists_pointsFrom_of_parse (h : parse settings mode text = .error (.parse e)) :
    ∃ before after, text.toList = before ++ (e.text.toList ++ after) ∧
      e.PointsFrom before.length ∧
        (before = [] ∨ ∃ a front, e = .alias a ∧ before = front ++ [',']) := by
  have hwhole : e.text = text → e.PointsInto → ∃ before after,
      text.toList = before ++ (e.text.toList ++ after) ∧ e.PointsFrom before.length ∧
        (before = [] ∨ ∃ a front, e = .alias a ∧ before = front ++ [',']) :=
    fun htext hinto => ⟨[], [], by rw [htext, List.append_nil, List.nil_append], hinto, .inl rfl⟩
  rcases of_parse_error h with ⟨r, hsplit, rfl⟩ | ⟨pieces, hsplit, p, hp, hentry⟩
  · obtain ⟨htext, hinto⟩ := pointsInto_of_splitEntries hsplit
    exact hwhole htext hinto
  · obtain ⟨before, after, htext, hstart, hfront⟩ := Alias.exists_sides_of_splitEntries hsplit hp
    rcases hentry with hfails | ⟨name, entry, earlier, rfl⟩
    · have hclosed : Closed false p.2 :=
        (Alias.placed_of_splitEntries hsplit).1.closed p.2 (List.mem_map_of_mem hp)
      obtain ⟨⟨a, ha⟩, hcarried, hpoints⟩ := pointsFrom_of_parseEntry hclosed hfails
      refine ⟨before, after, ?_, hstart ▸ hpoints, hfront.imp_right fun ⟨f, hf⟩ => ⟨a, f, ha, hf⟩⟩
      rw [hcarried, htext]
    · refine hwhole rfl ?_
      rintro _ ⟨⟩
      refine ⟨p.1, (Nat.zero_add _).symm, ?_, trivial⟩
      show p.1 ≤ text.toList.length
      rw [htext, hstart]
      simp

end AliasSet

/-- An error of a parameter text or of a selector text points into the text that it carries. The
text that an error of an alias text carries stands in the alias text, and the error points into it
when its place is counted from there. It points into it as it is where the text that it carries is
at the front, as it is unless an entry behind a comma is refused. -/
theorem errors_point (settings : Settings) (mode : CaseMode) (text : String) (e : ParseError) :
    (Parameter.parse settings mode text = .error (.parse e) → e.text = text ∧ e.PointsInto) ∧
    (Selector.parse settings mode text = .error (.parse e) →
      (e.text = text ∨ e.text.toList = (takeName text.toList).2) ∧ e.PointsInto) ∧
    (AliasSet.parse settings mode text = .error (.parse e) →
      ∃ before after, text.toList = before ++ (e.text.toList ++ after) ∧
        e.PointsFrom before.length ∧
        (before = [] → e.PointsInto) ∧
        (before = [] ∨ ∃ a front, e = .alias a ∧ before = front ++ [','])) := by
  refine ⟨fun h => (Parameter.pointsInto_of_parse h).of_parse, fun h => ?_, fun h => ?_⟩
  · rcases Selector.pointsInto_of_parse h with hpoints | hpoints
    · obtain ⟨htext, hinto⟩ := hpoints.of_parse
      exact ⟨.inl htext, hinto⟩
    · obtain ⟨htext, hinto⟩ := hpoints.of_parse
      exact ⟨.inr (by rw [htext, String.toList_ofList]), hinto⟩
  · obtain ⟨before, after, htext, hpoints, hfront⟩ := AliasSet.exists_pointsFrom_of_parse h
    refine ⟨before, after, htext, hpoints, ?_, hfront⟩
    rintro rfl
    exact hpoints

/-- The `$` in `(a, $)` is where the error says, and so is the one in `a$`. -/
theorem errors_point_dollar :
    (∃ e, Parameter.parse {} .sensitive "(a, $)" = .error (.parse e) ∧ e.position = some 4 ∧
      e.PointsInto) ∧
    ∃ e, AliasSet.parse {} .sensitive "a$" = .error (.parse e) ∧ e.position = some 1 ∧
      e.PointsInto := by
  have hparameters : (match Parameter.parse {} .sensitive "(a, $)" with
      | .error (.parse e) => e.position == some 4
      | _ => false) = true := by
    decide +kernel
  have haliases : (match AliasSet.parse {} .sensitive "a$" with
      | .error (.parse e) => e.position == some 1 && e.text == "a$"
      | _ => false) = true := by
    decide +kernel
  constructor
  · split at hparameters
    · next e h =>
      obtain ⟨hpoints, -⟩ := errors_point {} .sensitive "(a, $)" e
      exact ⟨e, h, beq_iff_eq.1 hparameters, (hpoints h).2⟩
    · cases hparameters
  · split at haliases
    · next e h =>
      obtain ⟨hposition, htext⟩ := Bool.and_eq_true_iff.1 haliases
      obtain ⟨-, -, hpoints⟩ := errors_point {} .sensitive "a$" e
      obtain ⟨before, after, hsides, -, hinto, -⟩ := hpoints h
      -- the error carries the whole text, so nothing stands in front of that
      rw [beq_iff_eq.1 htext] at hsides
      have hlen := congrArg List.length hsides
      simp only [List.length_append] at hlen
      exact ⟨e, h, beq_iff_eq.1 hposition, hinto (List.length_eq_zero_iff.1 (by omega))⟩
    · cases haliases

/-- In `a, b$` the second entry is refused at 4, which is past the end of the text ` b$` that the
error carries. -/
theorem second_entry_points_past :
    ∃ e, AliasSet.parse {} .sensitive "a, b$" = .error (.parse e) ∧ e.text = " b$" ∧
      e.position = some 4 ∧ e.text.toList.length = 3 ∧ ¬ e.PointsInto := by
  have hparse : (match AliasSet.parse {} .sensitive "a, b$" with
      | .error (.parse e) => e.position == some 4 && e.text == " b$"
      | _ => false) = true := by
    decide +kernel
  split at hparse
  · next e h =>
    obtain ⟨hposition, htext⟩ := Bool.and_eq_true_iff.1 hparse
    have hposition := beq_iff_eq.1 hposition
    have htext := beq_iff_eq.1 htext
    have hlength : e.text.toList.length = 3 := by
      rw [htext]
      rfl
    refine ⟨e, h, htext, hposition, hlength, fun hinto => ?_⟩
    obtain ⟨k, hk, hle, -⟩ := hinto 4 hposition
    omega
  · cases hparse

end FunctionCatalog
