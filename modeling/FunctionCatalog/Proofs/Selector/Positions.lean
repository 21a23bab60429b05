import FunctionCatalog.Proofs.Selector.Refusal

/-
  FunctionCatalog: where selector texts are refused.
  An error of a selector or parameter text says where in the text it is, and what it says of that
  place is so: the character, escape or lexeme that it names stands there (`SelectorFault.Marks`).
  First for the lexer, then for the parser on lexemes that stand in the text, and from both for
  whole texts (`Parameter.pointsInto_of_parse`, `Selector.pointsInto_of_parse`).
-/

namespace FunctionCatalog

/-- The lexeme is read at the front of a text. -/
def Selector.Begins (l : Lexeme) (rest : List Char) : Prop :=
  ∃ c cs tail, rest = c :: cs ∧ Reads c cs l tail

/-- What a fault says of a text is so of `rest`, the text from the place of the fault on. -/
def SelectorFault.Marks : SelectorFault → List Char → Prop
  | .badNumber, rest => ∃ c cs, rest = c :: cs ∧ Selector.startsNumber c = true
  | .badCharacter c, rest => rest.head? = some c
  | .badEscape c, rest => ['\\', c] <+: rest
  | .unterminatedText, rest => rest.head? = some '"'
  | .listExpected, _ => True
  | .unclosedList, rest => rest.head? = some '('
  | .separatorExpected found, rest => Selector.Begins found rest
  | .endOfParameters, rest => rest = []
  | .unexpected found, rest => Selector.Begins found rest
  | .nameExpected, rest => ∀ c, rest.head? = some c → isNameStart c = false

/-- The place of an error is in its text, and the fault is there. -/
def SelectorError.PointsInto (e : SelectorError) : Prop :=
  ∀ i, e.position = some i → i ≤ e.text.toList.length ∧ e.fault.Marks (e.text.toList.drop i)

/-- Where a text is refused as malformed, the error carries the text and points into it. -/
def Rejection.PointsInto (text : String) (r : Rejection) : Prop :=
  ∀ e, r = .parse e → ∃ f, e = .selector f ∧ f.text = text ∧ f.PointsInto

/-- A fault at a place of the text. -/
theorem Rejection.pointsInto_fault {text : String} {fault : SelectorFault} {i : Nat}
    (hi : i ≤ text.toList.length) (hmarks : fault.Marks (text.toList.drop i)) :
    Rejection.PointsInto text (.parse (.selector ⟨fault, text, some i⟩)) := by
  rintro _ ⟨⟩
  refine ⟨_, rfl, rfl, ?_⟩
  rintro _ ⟨⟩
  exact ⟨hi, hmarks⟩

/-- A place with characters behind it is in the text. -/
theorem Rejection.pointsInto_fault_of_drop {text : String} {fault : SelectorFault} {i : Nat}
    {rest : List Char} (hrest : text.toList.drop i = rest) (hne : rest ≠ [])
    (hmarks : fault.Marks rest) :
    Rejection.PointsInto text (.parse (.selector ⟨fault, text, some i⟩)) := by
  subst hrest
  exact pointsInto_fault (Nat.le_of_not_le (mt List.drop_eq_nil_of_le hne)) hmarks

/-! ## Lexemes -/

namespace TextLiteral

/-- An escape that stands for nothing is where the error says. -/
theorem drop_of_read_badEscape {i k : Nat} {cs : List Char} {c : Char}
    (h : read i cs = .error (.badEscape c k)) :
    ∃ n, k = i + n ∧ ['\\', c] <+: cs.drop n := by
  fun_induction read i cs with
  | case1 => cases h
  | case2 => cases h
  | case3 => cases h
  | case4 i d cs =>
    cases h
    exact ⟨0, rfl, List.prefix_append ['\\', c] cs⟩
  | case5 i d cs e _ ih =>
    obtain ⟨n, hn, hfront⟩ := ih (error_of_map_error h)
    exact ⟨n + 2, by omega, by simpa using hfront⟩
  | case6 i d cs _ _ _ ih =>
    obtain ⟨n, hn, hfront⟩ := ih (error_of_map_error h)
    exact ⟨n + 1, by omega, by simpa using hfront⟩

end TextLiteral

namespace Selector

variable {text : String} {i : Nat} {c : Char} {cs : List Char} {r : Rejection} {l : Lexeme}

/-- A lexeme that is refused is where the error says. -/
theorem pointsInto_of_lexeme (hcs : text.toList.drop i = c :: cs)
    (h : lexeme text i c cs = .error r) : r.PointsInto text := by
  have hne : c :: cs ≠ [] := List.cons_ne_nil c cs
  unfold lexeme at h
  split at h
  · cases h
  · split at h
    · cases h
    · split at h
      · cases h
      · split at h
        · next hq =>
          split at h
          · cases h
          · cases h
            exact Rejection.pointsInto_fault_of_drop hcs hne (congrArg some hq)
          · next d k hread =>
            cases h
            obtain ⟨n, rfl, hfront⟩ := TextLiteral.drop_of_read_badEscape hread
            have hdrop : text.toList.drop (i + 1 + n) = cs.drop n := by
              rw [← List.drop_drop, ← List.drop_drop, hcs]
              rfl
            exact Rejection.pointsInto_fault_of_drop hdrop (hfront.ne_nil (by simp)) hfront
        · split at h
          · next hnumber =>
            split at h
            · cases h
              exact Rejection.pointsInto_fault_of_drop hcs hne ⟨c, cs, rfl, hnumber⟩
            · split at h
              · cases h
                rintro _ ⟨⟩
              · cases h
          · split at h
            · cases h
              exact Rejection.pointsInto_fault_of_drop hcs hne rfl
            · cases h

/-- What is left of a text behind its next lexeme. -/
theorem drop_of_reads {rest : List Char} (hcs : text.toList.drop i = c :: cs)
    (h : Reads c cs l rest) :
    text.toList.drop (i + 1 + (cs.length - rest.length)) = rest := by
  obtain ⟨front, rfl⟩ := h.suffix
  rw [← List.drop_drop, ← List.drop_drop, hcs]
  simp

/-- A text that the lexer refuses is wrong where the error says. -/
theorem pointsInto_of_lexemesFrom (hcs : text.toList.drop i = cs)
    (h : lexemesFrom text i cs = .error r) : r.PointsInto text := by
  fun_induction lexemesFrom text i cs with
  | case1 => cases h
  | case2 i c cs _ ih =>
    refine ih ?_ h
    rw [← List.drop_drop, hcs]
    rfl
  | case3 i c cs _ e hl =>
    cases h
    exact pointsInto_of_lexeme hcs hl
  | case4 i c cs _ l rest hl ih =>
    exact ih (drop_of_reads hcs (reads_of_lexeme hl)) (error_of_map_error h)

/-- Lexemes are at their places. -/
theorem begins_of_lexemesFrom {ls : List PlacedLexeme} (hcs : text.toList.drop i = cs)
    (h : lexemesFrom text i cs = .ok ls) :
    ∀ l ∈ ls, Begins l.lexeme (text.toList.drop l.position) := by
  fun_induction lexemesFrom text i cs generalizing ls with
  | case1 =>
    cases h
    exact fun l hl => absurd hl List.not_mem_nil
  | case2 i c cs _ ih =>
    refine ih ?_ h
    rw [← List.drop_drop, hcs]
    rfl
  | case3 => cases h
  | case4 i c cs _ l rest hl ih =>
    have hreads := reads_of_lexeme hl
    obtain ⟨ms, hms, rfl⟩ := exists_of_map_ok h
    exact List.forall_mem_cons.2
      ⟨⟨c, cs, rest, hcs, hreads⟩, ih (drop_of_reads hcs hreads) hms⟩

theorem Begins.head_of_openParen {rest : List Char} (h : Begins .openParen rest) :
    rest.head? = some '(' := by
  obtain ⟨c, cs, tail, rfl, hreads⟩ := h
  rw [(hreads.of_punctuation (p := '(') rfl).1]
  rfl

end Selector

/-! ## Parameters -/

namespace Parameter

open Selector (Begins)

variable {source : Source} {budget : Nat} {r : Rejection}

/-- Lexemes that are at their places in the source. -/
def Source.Stands (source : Source) (ls : List PlacedLexeme) : Prop :=
  ∀ l ∈ ls, Begins l.lexeme (source.text.toList.drop l.position)

theorem Source.Stands.of_suffix {ls ms : List PlacedLexeme} (h : source.Stands ls)
    (hs : ms <:+ ls) : source.Stands ms :=
  fun l hl => h l (hs.subset hl)

/-- A fault at a lexeme. -/
theorem Source.pointsInto_fault {α : Type} {fault : SelectorFault} {l : PlacedLexeme}
    (h : (source.fault fault l.position : Except Rejection α) = .error r)
    (hl : Begins l.lexeme (source.text.toList.drop l.position))
    (hmarks : ∀ rest, Begins l.lexeme rest → fault.Marks rest) : r.PointsInto source.text := by
  cases h
  obtain ⟨c, cs, tail, hcs, -⟩ := id hl
  exact Rejection.pointsInto_fault_of_drop rfl (by simp [hcs]) (hmarks _ hl)

/-- The end of the parameters is the end of the text. -/
theorem Source.pointsInto_end {α : Type}
    (h : (source.fault .endOfParameters source.text.length : Except Rejection α) = .error r) :
    r.PointsInto source.text := by
  cases h
  refine Rejection.pointsInto_fault (Nat.le_of_eq String.length_toList.symm) ?_
  exact List.drop_eq_nil_of_le (Nat.le_of_eq String.length_toList)

def ValuePoints (source : Source) (budget : Nat) : Prop :=
  ∀ ls r, source.Stands ls → parseValue source budget ls = .error r → r.PointsInto source.text

/-- The list opened at `start` is closed or refused. -/
def ListPoints (source : Source) (budget : Nat) : Prop :=
  ∀ start ls r, Begins .openParen (source.text.toList.drop start) → source.Stands ls →
    parseList source budget start ls = .error r → r.PointsInto source.text

def ItemsPoints (source : Source) (budget : Nat) : Prop :=
  ∀ start ls r, Begins .openParen (source.text.toList.drop start) → source.Stands ls →
    parseItems source budget start ls = .error r → r.PointsInto source.text

theorem valuePoints_succ (hlist : ListPoints source budget) : ValuePoints source (budget + 1) := by
  intro ls r hls h
  cases ls with
  | nil => exact Source.pointsInto_end h
  | cons l ls =>
    obtain ⟨hl, hls⟩ := List.forall_mem_cons.1 hls
    rw [parseValue] at h
    split at h
    · cases h
    · cases h
    · next s _ =>
      cases hmake : Name.make source.settings s source.mode with
      | error cause =>
        rw [hmake] at h
        cases h
        rintro _ ⟨⟩
      | ok name =>
        simp only [hmake, Rejection.ofName_ok, bind, Except.bind] at h
        split at h
        · next start inner =>
          obtain ⟨hopen, hinner⟩ := List.forall_mem_cons.1 hls
          split at h
          · next e hparse =>
            cases h
            exact hlist _ _ _ hopen hinner hparse
          · cases h
        · cases h
    · exact Source.pointsInto_fault h hl (fun rest hrest => hrest)

theorem listPoints_succ (hitems : ItemsPoints source budget) : ListPoints source (budget + 1) := by
  intro start ls r hopen hls h
  unfold parseList at h
  split at h
  · cases h
  · exact hitems _ _ _ hopen hls h

theorem itemsPoints_succ (hvalue : ValuePoints source budget)
    (hitems : ItemsPoints source budget) : ItemsPoints source (budget + 1) := by
  intro start ls r hopen hls h
  rw [parseItems] at h
  rcases error_of_bind_error h with hfirst | ⟨⟨v, mid⟩, hv, htail⟩
  · exact hvalue _ _ hls hfirst
  · have hmid : source.Stands mid := hls.of_suffix ((suffix_of_parse source budget).1 _ _ _ hv)
    dsimp only at htail
    split at htail
    · exact Source.pointsInto_fault (l := ⟨.openParen, start⟩) htail hopen
        (fun rest hrest => hrest.head_of_openParen)
    · cases htail
    · obtain ⟨-, hinner⟩ := List.forall_mem_cons.1 hmid
      rcases error_of_bind_error htail with hothers | ⟨x, -, hok⟩
      · exact hitems _ _ _ hopen hinner hothers
      · cases hok
    · next found position _ _ _ =>
      obtain ⟨hfound, -⟩ := List.forall_mem_cons.1 hmid
      exact Source.pointsInto_fault (l := ⟨found, position⟩) htail hfound
        (fun rest hrest => hrest)

/-- Whatever is refused in a list of lexemes at their places, the error points into the source. -/
theorem points (source : Source) (budget : Nat) :
    ValuePoints source budget ∧ ListPoints source budget ∧ ItemsPoints source budget := by
  induction budget with
  | zero =>
    refine ⟨?_, ?_, ?_⟩
    · intro ls r _ h
      rw [parseValue] at h
      exact Source.pointsInto_end h
    · intro start ls r _ _ h
      rw [parseList] at h
      exact Source.pointsInto_end h
    · intro start ls r _ _ h
      rw [parseItems] at h
      exact Source.pointsInto_end h
  | succ budget ih =>
    obtain ⟨hvalue, hlist, hitems⟩ := ih
    exact ⟨valuePoints_succ hlist, listPoints_succ hitems, itemsPoints_succ hvalue hitems⟩

/-- An error of a parameter text points into it. -/
theorem pointsInto_of_parse {settings : Settings} {mode : CaseMode} {text : String}
    (h : parse settings mode text = .error r) : r.PointsInto text := by
  rcases error_of_bind_error h with hlexemes | ⟨ls, hls, htail⟩
  · exact Selector.pointsInto_of_lexemesFrom rfl hlexemes
  · have hstands : Source.Stands ⟨settings, mode, text⟩ ls :=
      Selector.begins_of_lexemesFrom rfl hls
    dsimp only at htail
    split at htail
    · cases htail
    · next start inner =>
      obtain ⟨hopen, hinner⟩ := List.forall_mem_cons.1 hstands
      rcases error_of_bind_error htail with hlist | ⟨⟨vs, stop, rest⟩, hlist, hend⟩
      · exact (points _ _).2.1 _ _ _ hopen hinner hlist
      · dsimp only at hend
        split at hend
        · cases hend
        · next l _ =>
          have hl := hinner l (((suffix_of_parse _ _).2.1 _ _ _ _ _ hlist).subset (by simp))
          exact Source.pointsInto_fault hend hl (fun rest hrest => hrest)
    · cases htail
      rintro _ ⟨⟩
      refine ⟨_, rfl, rfl, ?_⟩
      rintro _ ⟨⟩

end Parameter

/-! ## Selectors -/

namespace Selector

/-- An error of a selector text points into the text, or into the parameter text behind the name. -/
theorem pointsInto_of_parse {settings : Settings} {mode : CaseMode} {text : String} {r : Rejection}
    (h : parse settings mode text = .error r) :
    r.PointsInto text ∨ r.PointsInto (String.ofList (takeName text.toList).2) := by
  unfold parse at h
  split at h
  · next rest htake =>
    cases h
    have hnone := takeName_eq_nil_iff.1 (congrArg Prod.fst htake)
    exact .inl (Rejection.pointsInto_fault (Nat.zero_le _) hnone)
  · next name rest hne htake =>
    rw [htake]
    split at h
    · cases hlist : isListText rest with
      | false =>
        rw [if_neg (by simp [hlist])] at h
        obtain ⟨cause, rfl⟩ := Rejection.name_of_bind_error h
        exact .inl (by rintro _ ⟨⟩)
      | true =>
        rw [if_pos hlist] at h
        rcases error_of_bind_error h with hparameters | ⟨vs, -, htail⟩
        · exact .inr (Parameter.pointsInto_of_parse hparameters)
        · obtain ⟨cause, rfl⟩ := Rejection.name_of_bind_error htail
          exact .inl (by rintro _ ⟨⟩)
    · next hsep =>
      cases h
      have hrest : text.toList.drop name.length = rest := by
        rw [← takeName_append text.toList, htake, List.drop_left]
      cases rest with
      | nil => exact absurd rfl hsep
      | cons c rest =>
        exact .inl (Rejection.pointsInto_fault_of_drop hrest (List.cons_ne_nil c rest) rfl)

end Selector

end FunctionCatalog
