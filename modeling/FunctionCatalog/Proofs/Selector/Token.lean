import FunctionCatalog.Proofs.Selector.Lexing

/-
  FunctionCatalog: the tokens of a text.
  `Selector.Token` says what a parenthesis, a comma, a text literal, a number or a name looks like
  in front of a text, and `Selector.Tokens` runs through a text token by token. The lexemes of a
  text are its tokens up to its end (`lexes_iff`), and a text is refused for a whole number of too
  many digits just when its tokens lead up to one (`lexemesFrom_eq_digitLimit_iff`).
-/

namespace FunctionCatalog

/-! ## Where a token starts and ends -/

/-- No white space goes on with a numeral. -/
theorem Numeral.ends_of_isBlank {c : Char} (h : Text.isBlank c = true) : Ends c := by
  have hzeros : ∀ z ∈ Text.decimalZeros, z = 0x30 ∨ 0x660 ≤ z ∧ z + 9 < 0x1680 ∨
      0x1680 < z ∧ z + 9 < 0x2000 ∨ 0x3000 < z := by decide
  refine ⟨?_, ?_, ?_, ?_, ?_⟩
  · rw [Text.decimalDigit?, Option.map_eq_none_iff, List.find?_eq_none]
    intro z hz
    simp only [Text.isBlank, Bool.or_eq_true, Bool.and_eq_true, decide_eq_true_eq,
      beq_iff_eq] at h
    simp only [Bool.and_eq_true, decide_eq_true_eq]
    rcases hzeros z hz with rfl | hz | hz | hz <;> omega
  · rintro rfl
    revert h
    decide
  · rintro rfl
    revert h
    decide
  · rintro rfl
    revert h
    decide
  · rintro (rfl | rfl) <;> revert h <;> decide

namespace Selector

variable {text : String} {i : Nat} {c : Char} {cs front rest : List Char} {l : Lexeme}

theorem startsNumber_iff :
    startsNumber c = true ↔ Text.isDigitLike c = true ∨ c = '+' ∨ c = '-' ∨ c = '.' := by
  simp [startsNumber, or_assoc]

/-- A numeral starts with a character that the lexer takes for a number, and not for white space. -/
theorem exists_cons_of_writes {n : Numeral} (h : n.Writes cs) :
    ∃ c ds, cs = c :: ds ∧ startsNumber c = true ∧ Text.isBlank c = false := by
  have hdigits : ∀ {ds : List Nat} {a : List Char}, Numeral.WritesDigits ds a → ds ≠ [] →
      ∃ c b, a = c :: b ∧ startsNumber c = true ∧ Text.isBlank c = false := by
    intro ds a ha hne
    obtain ⟨c, b, rfl⟩ := List.exists_cons_of_ne_nil (ha.ne_nil hne)
    obtain ⟨d, -, -, hd, -⟩ := List.map_eq_cons_iff.1 ha.symm
    refine ⟨c, b, rfl, startsNumber_iff.2 (.inl ?_), ?_⟩
    · simp [Text.isDigitLike, ← hd]
    · cases hb : Text.isBlank c with
      | false => rfl
      | true => simp [(Numeral.ends_of_isBlank hb).noDigit] at hd
  cases h with
  | @mk negative whole fraction exponent s b e hs hb he =>
    cases hs with
    | plus => exact ⟨'+', b ++ e, rfl, by decide, by decide⟩
    | minus => exact ⟨'-', b ++ e, rfl, by decide, by decide⟩
    | absent =>
      cases hb with
      | whole hd hne =>
        obtain ⟨c, b, rfl, hc⟩ := hdigits hd hne
        exact ⟨c, b ++ e, rfl, hc⟩
      | @point es a b ha _ _ =>
        by_cases hwhole : whole = []
        · subst hwhole
          obtain rfl := List.map_eq_nil_iff.1 ha
          exact ⟨'.', b ++ e, rfl, by decide, by decide⟩
        · obtain ⟨c, a, rfl, hc⟩ := hdigits ha hwhole
          exact ⟨c, a ++ '.' :: b ++ e, rfl, hc⟩

theorem ne_of_startsNumber (h : startsNumber c = true) :
    Lexeme.ofPunctuation? c = none ∧ c ≠ '"' := by
  rw [Lexeme.ofPunctuation?_eq_none]
  refine ⟨⟨?_, ?_, ?_⟩, ?_⟩ <;> rintro rfl <;> revert h <;> decide

theorem ne_of_isNameStart (h : isNameStart c = true) :
    Lexeme.ofPunctuation? c = none ∧ c ≠ '"' := by
  rw [Lexeme.ofPunctuation?_eq_none]
  refine ⟨⟨?_, ?_, ?_⟩, ?_⟩ <;> rintro rfl <;> revert h <;> decide

/-! ## Single tokens -/

/-- A token in front of a text: the lexeme that it is, its characters, and what follows. A number
and a name are as long as they can be there. -/
inductive Token : Lexeme → List Char → List Char → Prop
  | punctuation {p : Char} {l : Lexeme} {rest : List Char} (h : Lexeme.ofPunctuation? p = some l) :
      Token l [p] rest
  | text {value body rest : List Char} (h : TextLiteral.Writes value body) :
      Token (.text (String.ofList value)) ('"' :: (body ++ ['"'])) rest
  | number {n : Numeral} {front rest : List Char} (h : n.Longest front rest)
      (hn : n.IsReadable) : Token (.number n.number) front rest
  | name {w rest : List Char} (h : isName w = true)
      (hrest : ∀ c ∈ rest.head?, isNamePart c = false) :
      Token (.name (String.ofList w)) w rest

theorem Reads.exists_token (h : Reads c cs l rest) :
    ∃ front, c :: cs = front ++ rest ∧ Token l front rest := by
  cases h with
  | punctuation h => exact ⟨[c], rfl, .punctuation h⟩
  | text hc h =>
    obtain ⟨body, rfl, hbody⟩ := TextLiteral.exists_of_read h
    exact ⟨'"' :: (body ++ ['"']), by simp [hc], .text hbody⟩
  | number _ _ _ h hn =>
    obtain ⟨front, hfront⟩ := Numeral.suffix_scan h
    rw [← hfront, Numeral.scan_eq_some_iff] at h
    obtain ⟨hreadable, rfl⟩ := Numeral.value?_eq_some_iff.1 hn
    exact ⟨front, hfront.symm, .number h hreadable⟩
  | name _ _ _ hc =>
    refine ⟨c :: cs.takeWhile isNamePart, by simp, .name ?_ ?_⟩
    · exact Bool.and_eq_true_iff.2 ⟨hc, List.all_takeWhile⟩
    · intro d hd
      have := List.head?_dropWhile_not isNamePart cs
      rw [Option.mem_def.1 hd] at this
      simpa using this

theorem Token.reads (h : Token l front rest) :
    ∃ c cs, front = c :: cs ∧ Reads c (cs ++ rest) l rest := by
  cases h with
  | @punctuation p _ _ h => exact ⟨p, [], rfl, .punctuation h⟩
  | @text value body _ h =>
    refine ⟨'"', body ++ ['"'], rfl, .text rfl ?_⟩
    rw [List.append_assoc, List.singleton_append]
    exact TextLiteral.read_of_writes h 0 rest
  | number h hn =>
    obtain ⟨c, cs, rfl, hc, -⟩ := exists_cons_of_writes h.writes
    obtain ⟨hp, hq⟩ := ne_of_startsNumber hc
    exact ⟨c, cs, rfl, .number hp hq hc (Numeral.scan_eq_some_iff.2 h)
      (Numeral.value?_of_isReadable hn)⟩
  | name h hrest =>
    cases front with
    | nil => cases h
    | cons c cs =>
      have hc : isNameStart c = true := (Bool.and_eq_true_iff.1 h).1
      obtain ⟨hp, hq⟩ := ne_of_isNameStart hc
      have htake := takeName_of_isName h hrest
      rw [List.cons_append, takeName, if_pos hc] at htake
      obtain ⟨hname, hdrop⟩ := Prod.mk.inj htake
      have hreads : Reads c (cs ++ rest)
          (.name (String.ofList (c :: (cs ++ rest).takeWhile isNamePart)))
          ((cs ++ rest).dropWhile isNamePart) := .name hp hq (startsNumber_of_isNameStart hc) hc
      rw [hname, hdrop] at hreads
      exact ⟨c, cs, rfl, hreads⟩

/-- No token starts with white space. -/
theorem Token.not_isBlank (h : Token l front rest) :
    ∃ c cs, front = c :: cs ∧ Text.isBlank c = false := by
  cases h with
  | @punctuation p _ _ h => exact ⟨p, [], rfl, Lexeme.not_isBlank_of_ofPunctuation? h⟩
  | @text value body _ h => exact ⟨'"', body ++ ['"'], rfl, by decide⟩
  | number h hn =>
    obtain ⟨c, cs, rfl, -, hb⟩ := exists_cons_of_writes h.writes
    exact ⟨c, cs, rfl, hb⟩
  | name h hrest =>
    obtain ⟨c, cs, rfl⟩ := List.exists_cons_of_ne_nil (ne_nil_of_isName h)
    exact ⟨c, cs, rfl, not_isBlank_of_isNamePart (isNamePart_of_isName h c List.mem_cons_self)⟩

/-- A whole number of more digits than may be read stands in front of a text. -/
def StartsUnreadable (cs : List Char) : Prop :=
  ∃ (n : Numeral) (front rest : List Char),
    cs = front ++ rest ∧ n.Longest front rest ∧ ¬ n.IsReadable

theorem lexeme_of_startsUnreadable (h : StartsUnreadable (c :: cs)) :
    lexeme text i c cs = .error .digitLimit := by
  obtain ⟨n, front, rest, heq, hlongest, hn⟩ := h
  obtain ⟨d, ds, rfl, hd, -⟩ := exists_cons_of_writes hlongest.writes
  obtain rfl : c = d := (List.cons.inj heq).1
  obtain ⟨hp, hq⟩ := ne_of_startsNumber hd
  obtain ⟨h1, h2, h3⟩ := Lexeme.ofPunctuation?_eq_none.1 hp
  have hnumber : (Text.isDigitLike c || c = '+' || c = '-' || c = '.') = true := hd
  rw [lexeme, if_neg h1, if_neg h2, if_neg h3, if_neg hq, if_pos hnumber, heq,
    Numeral.scan_eq_some_iff.2 hlongest]
  dsimp only
  rw [Numeral.value?_of_not_isReadable hn]

/-- A lexeme is refused for its digits or as malformed. -/
theorem of_lexeme_error {e : Rejection} (h : lexeme text i c cs = .error e) :
    (e = .digitLimit ∧ StartsUnreadable (c :: cs)) ∨
      ∃ fault position, e = .parse (.selector ⟨fault, text, some position⟩) := by
  unfold lexeme at h
  split at h
  · cases h
  · split at h
    · cases h
    · split at h
      · cases h
      · split at h
        · split at h
          · cases h
          · cases h; exact .inr ⟨_, _, rfl⟩
          · cases h; exact .inr ⟨_, _, rfl⟩
        · split at h
          · split at h
            · cases h; exact .inr ⟨_, _, rfl⟩
            · next n rest hscan =>
              split at h
              · next hvalue =>
                cases h
                obtain ⟨front, hfront⟩ := Numeral.suffix_scan hscan
                rw [← hfront, Numeral.scan_eq_some_iff] at hscan
                exact .inl ⟨rfl, n, front, rest, hfront.symm, hscan,
                  Numeral.value?_eq_none_iff.1 hvalue⟩
              · cases h
          · split at h
            · cases h; exact .inr ⟨_, _, rfl⟩
            · cases h

/-! ## Tokens one after the other -/

/-- The tokens of a text up to some place, with white space before each of them and at the end. -/
inductive Tokens : List Lexeme → List Char → List Char → Prop
  | nil (rest : List Char) : Tokens [] rest rest
  | blank {ls : List Lexeme} {c : Char} {cs rest : List Char} (hc : Text.isBlank c = true)
      (h : Tokens ls cs rest) : Tokens ls (c :: cs) rest
  | cons {l : Lexeme} {ls : List Lexeme} {front cs rest : List Char} (h : Token l front cs)
      (ht : Tokens ls cs rest) : Tokens (l :: ls) (front ++ cs) rest

variable {ls : List Lexeme}

theorem tokens_of_lexemesFrom {ps : List PlacedLexeme} (h : lexemesFrom text i cs = .ok ps) :
    Tokens (ps.map (·.lexeme)) cs [] := by
  fun_induction lexemesFrom text i cs generalizing ps with
  | case1 =>
    cases h
    exact .nil []
  | case2 i c cs hb ih => exact .blank hb (ih h)
  | case3 => cases h
  | case4 i c cs hb l rest hl ih =>
    obtain ⟨qs, hqs, rfl⟩ := exists_of_map_ok h
    obtain ⟨front, hfront, htoken⟩ := (reads_of_lexeme hl).exists_token
    rw [hfront]
    exact .cons htoken (ih hqs)

/-- The lexer passes over tokens, and goes on with what is left. -/
theorem Tokens.exists_lexemesFrom (h : Tokens ls cs rest) (text : String) (i : Nat) :
    ∃ j ps, ps.map (·.lexeme) = ls ∧
      lexemesFrom text i cs = (lexemesFrom text j rest).map (ps ++ ·) := by
  induction h generalizing i with
  | nil rest =>
    refine ⟨i, [], rfl, ?_⟩
    cases lexemesFrom text i rest <;> rfl
  | blank hc _ ih =>
    rw [lexemesFrom_blank hc]
    exact ih (i + 1)
  | @cons l ls front cs rest htoken _ ih =>
    obtain ⟨c, ds, rfl, hreads⟩ := htoken.reads
    obtain ⟨d, es, heq, hb⟩ := htoken.not_isBlank
    obtain ⟨rfl, rfl⟩ := List.cons.inj heq
    obtain ⟨j, ps, rfl, hps⟩ := ih (i + 1 + ((ds ++ cs).length - cs.length))
    refine ⟨j, ⟨l, i⟩ :: ps, rfl, ?_⟩
    rw [List.cons_append, lexemesFrom_cons hb hreads, hps]
    cases lexemesFrom text j rest <;> rfl

/-- The lexemes of a text are its tokens. -/
theorem lexes_iff : Lexes cs ls ↔ Tokens ls cs [] := by
  constructor
  · rintro ⟨ps, hps, rfl⟩
    exact tokens_of_lexemesFrom hps
  · intro h
    obtain ⟨j, ps, hls, hps⟩ := h.exists_lexemesFrom "" 0
    refine ⟨ps, ?_, hls⟩
    rw [hps, lexemesFrom_nil]
    simp [Except.map]

/-- Token by token a text comes to a whole number of too many digits. -/
def ReachesUnreadable (cs : List Char) : Prop :=
  ∃ ls rest, Tokens ls cs rest ∧ StartsUnreadable rest

theorem lexemesFrom_of_startsUnreadable (h : StartsUnreadable cs) :
    lexemesFrom text i cs = .error .digitLimit := by
  obtain ⟨n, front, rest, rfl, hlongest, hn⟩ := h
  obtain ⟨c, ds, rfl, -, hb⟩ := exists_cons_of_writes hlongest.writes
  have hlexeme : lexeme text i c (ds ++ rest) = .error .digitLimit :=
    lexeme_of_startsUnreadable ⟨n, c :: ds, rest, rfl, hlongest, hn⟩
  rw [List.cons_append, lexemesFrom, if_neg (by simp [hb])]
  split
  · next heq =>
    rw [hlexeme] at heq
    cases heq
    rfl
  · next heq =>
    rw [hlexeme] at heq
    cases heq

/-- A text is refused by the lexer for its digits or as malformed. -/
theorem of_lexemesFrom_error {e : Rejection} (h : lexemesFrom text i cs = .error e) :
    (e = .digitLimit ∧ ReachesUnreadable cs) ∨
      ∃ fault position, e = .parse (.selector ⟨fault, text, some position⟩) := by
  fun_induction lexemesFrom text i cs with
  | case1 => cases h
  | case2 i c cs hb ih =>
    rcases ih h with ⟨rfl, ls, rest, hls, hrest⟩ | hfault
    · exact .inl ⟨rfl, ls, rest, .blank hb hls, hrest⟩
    · exact .inr hfault
  | case3 i c cs hb e' hl =>
    cases h
    rcases of_lexeme_error hl with ⟨rfl, hunreadable⟩ | hfault
    · exact .inl ⟨rfl, [], c :: cs, .nil _, hunreadable⟩
    · exact .inr hfault
  | case4 i c cs hb l rest hl ih =>
    rcases ih (error_of_map_error h) with ⟨rfl, ls, rest', hls, hrest⟩ | hfault
    · obtain ⟨front, hfront, htoken⟩ := (reads_of_lexeme hl).exists_token
      rw [hfront]
      exact .inl ⟨rfl, l :: ls, rest', .cons htoken hls, hrest⟩
    · exact .inr hfault

theorem lexemesFrom_eq_digitLimit_iff :
    lexemesFrom text i cs = .error .digitLimit ↔ ReachesUnreadable cs := by
  constructor
  · intro h
    rcases of_lexemesFrom_error h with ⟨-, hreaches⟩ | ⟨fault, position, heq⟩
    · exact hreaches
    · cases heq
  · rintro ⟨ls, rest, hls, hrest⟩
    obtain ⟨j, ps, -, hps⟩ := hls.exists_lexemesFrom text i
    rw [hps, lexemesFrom_of_startsUnreadable hrest]
    rfl

end Selector

end FunctionCatalog
