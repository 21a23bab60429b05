import FunctionCatalog.Proofs.Selector.Grammar

/-
  FunctionCatalog: texts that close what they open.
  In a closed text every literal ends and every parenthesis has its partner. What spells parameters
  is closed (`Spells.closed`), so a scanner that only counts parentheses outside of literals passes
  over it.
-/

namespace FunctionCatalog

/-- The characters from just past the opening quote of a literal to its closing one. -/
inductive Quoted : List Char → Prop
  | close : Quoted ['"']
  | escaped {cs : List Char} (c : Char) (h : Quoted cs) : Quoted ('\\' :: c :: cs)
  | plain {c : Char} {cs : List Char} (hq : c ≠ '"') (hb : c ≠ '\\') (h : Quoted cs) :
      Quoted (c :: cs)

theorem TextLiteral.Writes.quoted {value body : List Char} (h : Writes value body) :
    Quoted (body ++ ['"']) := by
  induction h with
  | nil => exact .close
  | escaped _ _ ih => exact .escaped _ ih
  | plain hq hb _ ih => exact .plain hq hb ih

theorem TextLiteral.exists_quoted {i : Nat} {cs value rest : List Char}
    (h : read i cs = .ok (value, rest)) : ∃ body, cs = body ++ rest ∧ Quoted body := by
  obtain ⟨body, rfl, hbody⟩ := exists_of_read h
  exact ⟨body ++ ['"'], by simp, hbody.quoted⟩

/-- A character that opens, closes and separates nothing. -/
def isPlain (c : Char) : Bool :=
  c != '"' && c != '(' && c != ')' && c != ','

/-- Every literal ends and every parenthesis has its partner. Inside of a list there may be commas
anywhere, at the top level of a text only if `commas` says so. -/
inductive Closed : Bool → List Char → Prop
  | nil (commas : Bool) : Closed commas []
  | plain {commas : Bool} {c : Char} {cs : List Char} (hc : isPlain c = true)
      (h : Closed commas cs) : Closed commas (c :: cs)
  | comma {cs : List Char} (h : Closed true cs) : Closed true (',' :: cs)
  | literal {commas : Bool} {q cs : List Char} (hq : Quoted q) (h : Closed commas cs) :
      Closed commas ('"' :: (q ++ cs))
  | list {commas : Bool} {a cs : List Char} (ha : Closed true a) (h : Closed commas cs) :
      Closed commas ('(' :: (a ++ ')' :: cs))

namespace Closed

variable {commas : Bool} {a b : List Char}

theorem append (ha : Closed commas a) (hb : Closed commas b) : Closed commas (a ++ b) := by
  induction ha with
  | nil => exact hb
  | plain hc _ ih => exact .plain hc (ih hb)
  | comma _ ih => exact .comma (ih hb)
  | @literal commas q cs hq _ ih =>
    rw [List.cons_append, List.append_assoc]
    exact .literal hq (ih hb)
  | @list commas a cs ha _ _ ih =>
    rw [List.cons_append, List.append_assoc, List.cons_append]
    exact .list ha (ih hb)

theorem of_all_isPlain (h : ∀ c ∈ a, isPlain c = true) : Closed commas a := by
  induction a with
  | nil => exact .nil commas
  | cons c a ih =>
    exact .plain (h c List.mem_cons_self) (ih (fun d hd => h d (List.mem_cons_of_mem c hd)))

/-- With nothing but plain characters in front it is the rest that counts. -/
theorem append_of_all_isPlain (ha : ∀ c ∈ a, isPlain c = true) (hb : Closed commas b) :
    Closed commas (a ++ b) :=
  append (of_all_isPlain ha) hb

theorem of_plain_cons {c : Char} (hc : isPlain c = true) (h : Closed commas (c :: a)) :
    Closed commas a := by
  cases h with
  | plain _ h => exact h
  | comma => exact absurd hc (by decide)
  | literal => exact absurd hc (by decide)
  | list => exact absurd hc (by decide)

theorem of_append_of_all_isPlain (ha : ∀ c ∈ a, isPlain c = true) (h : Closed commas (a ++ b)) :
    Closed commas b := by
  induction a with
  | nil => exact h
  | cons c a ih =>
    obtain ⟨hc, ha⟩ := List.forall_mem_cons.1 ha
    exact ih ha (of_plain_cons hc h)

/-- A closed text that opens a parenthesis closes it. -/
theorem exists_of_open (h : Closed commas ('(' :: b)) :
    ∃ a rest, b = a ++ ')' :: rest ∧ Closed true a := by
  cases h with
  | plain hc _ => exact absurd hc (by decide)
  | list ha _ => exact ⟨_, _, rfl, ha⟩

end Closed

theorem isPlain_of_isNamePart {c : Char} (h : isNamePart c = true) : isPlain c = true := by
  simp only [isPlain, Bool.and_eq_true, bne_iff_ne, ne_eq]
  refine ⟨⟨⟨?_, ?_⟩, ?_⟩, ?_⟩ <;> rintro rfl <;> revert h <;> decide

theorem isPlain_of_isBlank {c : Char} (h : Text.isBlank c = true) : isPlain c = true := by
  simp only [isPlain, Bool.and_eq_true, bne_iff_ne, ne_eq]
  refine ⟨⟨⟨?_, ?_⟩, ?_⟩, ?_⟩ <;> rintro rfl <;> revert h <;> decide

theorem ends_of_not_isPlain {c : Char} (h : isPlain c = false) : Numeral.Ends c := by
  have hcases : c = '"' ∨ c = '(' ∨ c = ')' ∨ c = ',' := by
    simp only [isPlain, Bool.and_eq_false_iff, bne_eq_false_iff_eq, or_assoc] at h
    exact h
  rcases hcases with rfl | rfl | rfl | rfl <;>
    exact ⟨by decide, by decide, by decide, by decide, by decide⟩

/-- A character that ends every numeral is not part of one. -/
theorem Numeral.exists_of_scan {cs rest : List Char} {n : Numeral} (h : scan cs = some (n, rest)) :
    ∃ front, cs = front ++ rest ∧ ∀ c ∈ front, isPlain c = true := by
  obtain ⟨front, hfront⟩ := suffix_scan h
  refine ⟨front, hfront.symm, fun c hc => ?_⟩
  cases hplain : isPlain c with
  | true => rfl
  | false =>
    -- the scan would have stopped at `c`, and left more than `rest`
    obtain ⟨a, b, rfl⟩ := List.append_of_mem hc
    rw [← hfront, List.append_assoc, List.cons_append,
      scan_append_cons (ends_of_not_isPlain hplain)] at h
    obtain ⟨⟨m, r⟩, -, heq⟩ := Option.map_eq_some_iff.1 h
    have hlen := congrArg List.length (Prod.mk.inj heq).2
    simp only [List.length_append, List.length_cons] at hlen
    omega

/-- A lexeme other than a parenthesis is closed. -/
theorem Selector.Reads.exists_closed {c : Char} {cs rest : List Char} {l : Lexeme}
    (h : Reads c cs l rest) (ho : l ≠ .openParen) (hc : l ≠ .closeParen) :
    ∃ front, c :: cs = front ++ rest ∧ Closed true front := by
  cases h with
  | punctuation h =>
    rcases Lexeme.of_ofPunctuation? h with ⟨-, rfl⟩ | ⟨-, rfl⟩ | ⟨rfl, -⟩
    · exact absurd rfl ho
    · exact absurd rfl hc
    · exact ⟨[','], rfl, .comma (.nil true)⟩
  | text hq h =>
    subst hq
    obtain ⟨body, rfl, hbody⟩ := TextLiteral.exists_quoted h
    refine ⟨'"' :: (body ++ []), by simp, .literal hbody (.nil true)⟩
  | number _ _ _ h _ =>
    obtain ⟨front, hfront, hplain⟩ := Numeral.exists_of_scan h
    exact ⟨front, hfront, .of_all_isPlain hplain⟩
  | name _ _ _ hstart =>
    refine ⟨c :: cs.takeWhile isNamePart, by simp, .of_all_isPlain ?_⟩
    intro d hd
    rcases List.mem_cons.1 hd with rfl | hd
    · exact isPlain_of_isNamePart (isNamePart_of_isNameStart hstart)
    · exact isPlain_of_isNamePart (List.all_eq_true.1 List.all_takeWhile d hd)

theorem Selector.closed_of_lexemesFrom {text : String} {i : Nat} {cs : List Char}
    {ls : List PlacedLexeme} (h : lexemesFrom text i cs = .ok ls)
    (hls : ∀ l ∈ ls, l.lexeme ≠ .openParen ∧ l.lexeme ≠ .closeParen) : Closed true cs := by
  fun_induction lexemesFrom text i cs generalizing ls with
  | case1 => exact .nil true
  | case2 i c cs hb ih => exact .plain (isPlain_of_isBlank hb) (ih h hls)
  | case3 => cases h
  | case4 i c cs hb l r hl ih =>
    obtain ⟨ms, hms, rfl⟩ := exists_of_map_ok h
    obtain ⟨ho, hc⟩ := hls ⟨l, i⟩ List.mem_cons_self
    obtain ⟨front, hfront, hclosed⟩ := (reads_of_lexeme hl).exists_closed ho hc
    rw [hfront]
    exact hclosed.append (ih hms (fun m hm => hls m (List.mem_cons_of_mem _ hm)))

theorem Selector.Lexes.closed {cs : List Char} {ls : List Lexeme} (h : Lexes cs ls)
    (hls : ∀ l ∈ ls, l ≠ .openParen ∧ l ≠ .closeParen) : Closed true cs := by
  obtain ⟨ps, hps, rfl⟩ := h
  exact closed_of_lexemesFrom hps (fun l hl => hls l.lexeme (List.mem_map_of_mem hl))

namespace Parameter

variable {settings : Settings} {mode : CaseMode} {vs : List Parameter} {cs : List Char}

theorem Spells.closed (h : Spells settings mode vs cs) : Closed true cs := by
  induction h with
  | text h => exact h.closed (by simp)
  | number h => exact h.closed (by simp)
  | plain h => exact h.closed (by simp)
  | empty ha _ hb hc =>
    exact .append (ha.closed (by simp)) (.list (hb.closed (by simp)) (hc.closed (by simp)))
  | call ha _ _ hc ih => exact .append (ha.closed (by simp)) (.list ih (hc.closed (by simp)))
  | cons _ _ iha ihb => exact .append iha (.comma ihb)

theorem SpellsAll.closed (h : SpellsAll settings mode vs cs) : Closed true cs := by
  rcases h with ⟨-, h⟩ | h
  · exact h.closed (by simp)
  · exact h.closed

end Parameter

end FunctionCatalog
