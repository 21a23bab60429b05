import FunctionCatalog.Proofs.Name
import FunctionCatalog.Proofs.Number.Grammar
import FunctionCatalog.Selector.Lexer

/-
  FunctionCatalog: punctuation cuts a text.
  A parenthesis or comma that is a lexeme by itself acts like the end of the text before it, so
  the lexemes of a text are those of the two sides with the punctuation between them. Put together
  by `lexemesFrom_append_cons`, taken apart by `exists_sides_of_lexemesFrom`. What the lexemes are
  does not depend on where a text stands in a larger one (`lexes_of_lexemesFrom`). Text literals are
  read for what they stand for by `TextLiteral.Writes`, whatever follows them.
-/

namespace FunctionCatalog

/-- The lexeme that a punctuation character is by itself. -/
def Lexeme.ofPunctuation? (c : Char) : Option Lexeme :=
  if c = '(' then some .openParen
  else if c = ')' then some .closeParen
  else if c = ',' then some .comma
  else none

namespace Lexeme

variable {p : Char} {l : Lexeme}

theorem of_ofPunctuation? (h : ofPunctuation? p = some l) :
    (p = '(' ∧ l = .openParen) ∨ (p = ')' ∧ l = .closeParen) ∨ (p = ',' ∧ l = .comma) := by
  unfold ofPunctuation? at h
  split at h
  · cases h; exact Or.inl ⟨‹_›, rfl⟩
  · split at h
    · cases h; exact Or.inr (Or.inl ⟨‹_›, rfl⟩)
    · split at h
      · cases h; exact Or.inr (Or.inr ⟨‹_›, rfl⟩)
      · cases h

theorem ofPunctuation?_eq_none {c : Char} :
    ofPunctuation? c = none ↔ c ≠ '(' ∧ c ≠ ')' ∧ c ≠ ',' := by
  unfold ofPunctuation?
  by_cases h1 : c = '(' <;> by_cases h2 : c = ')' <;> by_cases h3 : c = ',' <;> simp [h1, h2, h3]

theorem ends_of_ofPunctuation? (h : ofPunctuation? p = some l) : Numeral.Ends p := by
  rcases of_ofPunctuation? h with ⟨rfl, -⟩ | ⟨rfl, -⟩ | ⟨rfl, -⟩ <;>
    exact ⟨by decide, by decide, by decide, by decide, by decide⟩

theorem not_isNamePart_of_ofPunctuation? (h : ofPunctuation? p = some l) :
    isNamePart p = false := by
  rcases of_ofPunctuation? h with ⟨rfl, -⟩ | ⟨rfl, -⟩ | ⟨rfl, -⟩ <;> decide

theorem not_isBlank_of_ofPunctuation? (h : ofPunctuation? p = some l) :
    Text.isBlank p = false := by
  rcases of_ofPunctuation? h with ⟨rfl, -⟩ | ⟨rfl, -⟩ | ⟨rfl, -⟩ <;> decide

end Lexeme

/-! ## Text literals -/

namespace TextLiteral

variable {i j : Nat} {cs value rest tail : List Char}

theorem read_cons {c : Char} (hq : c ≠ '"') (hb : c ≠ '\\') (cs : List Char) :
    read i (c :: cs) = (read (i + 1) cs).map (fun r => (c :: r.1, r.2)) := by
  rw [read]
  · exact hq
  · intro h; exact absurd h hb
  · intro d ds h; exact absurd h hb

/-- What may follow a backslash, and the character that the two stand for. -/
def escapes : List (Char × Char) :=
  [('"', '"'), ('\x27', '\x27'), ('\\', '\\'), ('n', '\n'), ('r', '\r'), ('t', '\t'),
    ('0', '\x00')]

/-- The characters between the quotes of a literal stand for a text. -/
inductive Writes : List Char → List Char → Prop
  | nil : Writes [] []
  | escaped {c d : Char} {value cs : List Char} (hc : (c, d) ∈ escapes) (h : Writes value cs) :
      Writes (d :: value) ('\\' :: c :: cs)
  | plain {c : Char} {value cs : List Char} (hq : c ≠ '"') (hb : c ≠ '\\')
      (h : Writes value cs) : Writes (c :: value) (c :: cs)

theorem unescape?_eq_some_iff {c d : Char} : unescape? c = some d ↔ (c, d) ∈ escapes := by
  unfold unescape? escapes
  repeat'
    split
  all_goals simp_all [eq_comm]

theorem exists_of_read (h : read i cs = .ok (value, rest)) :
    ∃ body, cs = body ++ '"' :: rest ∧ Writes value body := by
  fun_induction read i cs generalizing value rest with
  | case1 => cases h
  | case2 i cs =>
    cases h
    exact ⟨[], rfl, .nil⟩
  | case3 => cases h
  | case4 => cases h
  | case5 i c cs d hd ih =>
    obtain ⟨⟨v, r⟩, hr, hv⟩ := exists_of_map_ok h
    obtain ⟨rfl, rfl⟩ := Prod.mk.inj hv
    obtain ⟨body, rfl, hbody⟩ := ih hr
    exact ⟨'\\' :: c :: body, rfl, .escaped (unescape?_eq_some_iff.1 hd) hbody⟩
  | case6 i c cs hq hs hb ih =>
    obtain ⟨⟨v, r⟩, hr, hv⟩ := exists_of_map_ok h
    obtain ⟨rfl, rfl⟩ := Prod.mk.inj hv
    obtain ⟨body, rfl, hbody⟩ := ih hr
    have hne : c ≠ '\\' := by
      intro heq
      cases hcs : body ++ '"' :: r with
      | nil => exact hs heq hcs
      | cons d ds => exact hb d ds heq hcs
    exact ⟨c :: body, rfl, .plain hq hne hbody⟩

theorem read_of_writes {body : List Char} (h : Writes value body) (i : Nat) (rest : List Char) :
    read i (body ++ '"' :: rest) = .ok (value, rest) := by
  induction h generalizing i with
  | nil => rfl
  | escaped hc _ ih =>
    rw [List.cons_append, List.cons_append, read, unescape?_eq_some_iff.2 hc]
    dsimp only
    rw [ih]
    rfl
  | plain hq hb _ ih =>
    rw [List.cons_append, read_cons hq hb, ih]
    rfl

/-- What follows a literal is no part of it. -/
theorem read_append (h : read i cs = .ok (value, rest)) (j : Nat) (tail : List Char) :
    read j (cs ++ tail) = .ok (value, rest ++ tail) := by
  obtain ⟨body, rfl, hbody⟩ := exists_of_read h
  rw [List.append_assoc, List.cons_append]
  exact read_of_writes hbody j (rest ++ tail)

theorem read_at (h : read i cs = .ok (value, rest)) (j : Nat) : read j cs = .ok (value, rest) := by
  simpa using read_append h j []

/-- A literal that ends before `tail` is read without it as well. -/
theorem read_of_append (h : read i (cs ++ tail) = .ok (value, rest ++ tail)) (j : Nat) :
    read j cs = .ok (value, rest) := by
  obtain ⟨body, heq, hbody⟩ := exists_of_read h
  rw [← List.cons_append, ← List.append_assoc] at heq
  rw [List.append_cancel_right heq]
  exact read_of_writes hbody j rest

theorem suffix_read (h : read i cs = .ok (value, rest)) : rest <:+ cs := by
  obtain ⟨body, rfl, -⟩ := exists_of_read h
  exact ⟨body ++ ['"'], by simp⟩

end TextLiteral

/-! ## Names -/

theorem takeWhile_append_cons {α : Type} {q : α → Bool} {x : α} (hx : q x = false)
    (a b : List α) : (a ++ x :: b).takeWhile q = a.takeWhile q := by
  induction a with
  | nil => simp [hx]
  | cons c a ih => simp only [List.cons_append, List.takeWhile_cons, ih]

theorem dropWhile_append_cons {α : Type} {q : α → Bool} {x : α} (hx : q x = false)
    (a b : List α) : (a ++ x :: b).dropWhile q = a.dropWhile q ++ x :: b := by
  induction a with
  | nil => simp [hx]
  | cons c a ih =>
    simp only [List.cons_append, List.dropWhile_cons, ih]
    split <;> rfl

/-! ## One lexeme -/

namespace Selector

variable {text text' : String} {i i' : Nat} {c p : Char} {cs a b r : List Char} {l m : Lexeme}

theorem lexeme_of_ofPunctuation? (hp : Lexeme.ofPunctuation? p = some l) (cs : List Char) :
    lexeme text i p cs = .ok (l, cs) := by
  rcases Lexeme.of_ofPunctuation? hp with ⟨rfl, rfl⟩ | ⟨rfl, rfl⟩ | ⟨rfl, rfl⟩ <;> rfl

/-- A character with which a number starts, though it need not go on as one. -/
def startsNumber (c : Char) : Bool :=
  Text.isDigitLike c || c = '+' || c = '-' || c = '.'

/-- A letter has a place among the characters far below the digits of other scripts. -/
theorem startsNumber_of_isNameStart {c : Char} (h : isNameStart c = true) :
    startsNumber c = false := by
  have hrange := toNat_of_isNameStart h
  have hzeros : ∀ z ∈ Text.decimalZeros, z = 0x30 ∨ 0x660 ≤ z := by decide
  have hlike : ∀ r ∈ Text.digitLikeRanges, 0xb2 ≤ r.1 := by decide
  have hdigit : Text.decimalDigit? c = none := by
    rw [Text.decimalDigit?, Option.map_eq_none_iff, List.find?_eq_none]
    intro z hz
    simp only [Bool.and_eq_true, decide_eq_true_eq]
    rcases hzeros z hz with rfl | hz <;> omega
  have hdigitLike : Text.isDigitLike c = false := by
    simp only [Text.isDigitLike, hdigit, Option.isSome_none, Bool.false_or, List.any_eq_false,
      Bool.and_eq_true, decide_eq_true_eq]
    intro r hr
    have := hlike r hr
    omega
  have hplus : c ≠ '+' := by rintro rfl; revert hrange; decide
  have hminus : c ≠ '-' := by rintro rfl; revert hrange; decide
  have hpoint : c ≠ '.' := by rintro rfl; revert hrange; decide
  simp [startsNumber, hdigitLike, hplus, hminus, hpoint]

/-- The lexeme that starts with `c` and goes on into `cs`, and what follows it, wherever the two
stand in a text. -/
inductive Reads (c : Char) (cs : List Char) : Lexeme → List Char → Prop
  | punctuation {l : Lexeme} (h : Lexeme.ofPunctuation? c = some l) : Reads c cs l cs
  | text {value rest : List Char} (hc : c = '"')
      (h : TextLiteral.read 0 cs = .ok (value, rest)) :
      Reads c cs (.text (String.ofList value)) rest
  | number {numeral : Numeral} {n : Number} {rest : List Char}
      (hp : Lexeme.ofPunctuation? c = none) (hq : c ≠ '"') (hc : startsNumber c = true)
      (h : Numeral.scan (c :: cs) = some (numeral, rest)) (hn : numeral.value? = some n) :
      Reads c cs (.number n) rest
  | name (hp : Lexeme.ofPunctuation? c = none) (hq : c ≠ '"') (hn : startsNumber c = false)
      (hc : isNameStart c = true) :
      Reads c cs (.name (String.ofList (c :: cs.takeWhile isNamePart)))
        (cs.dropWhile isNamePart)

theorem reads_of_lexeme (h : lexeme text i c cs = .ok (l, r)) : Reads c cs l r := by
  cases hp : Lexeme.ofPunctuation? c with
  | some m =>
    rw [lexeme_of_ofPunctuation? hp] at h
    cases h
    exact .punctuation hp
  | none =>
    unfold lexeme at h
    split at h
    · next hc => subst hc; cases hp
    · split at h
      · next hc => subst hc; cases hp
      · split at h
        · next hc => subst hc; cases hp
        · split at h
          · next hc =>
            split at h
            · next hr => cases h; exact .text hc (TextLiteral.read_at hr 0)
            · cases h
            · cases h
          · next hq =>
            split at h
            · next hc =>
              split at h
              · cases h
              · next hs =>
                split at h
                · cases h
                · next hn => cases h; exact .number hp hq hc hs hn
            · next hn =>
              rw [takeName] at h
              split at h
              · cases h
              · next name rest hne heq =>
                split at heq
                · next hc =>
                  cases heq
                  cases h
                  exact .name hp hq (by simpa [startsNumber] using hn) hc
                · cases heq; exact absurd rfl hne

theorem lexeme_of_reads (h : Reads c cs l r) (text : String) (i : Nat) :
    lexeme text i c cs = .ok (l, r) := by
  cases h with
  | punctuation h => exact lexeme_of_ofPunctuation? h cs
  | text hc h =>
    subst hc
    simp [lexeme, TextLiteral.read_at h (i + 1)]
  | number hp hq hc h hn =>
    obtain ⟨h1, h2, h3⟩ := Lexeme.ofPunctuation?_eq_none.1 hp
    have hc' : (Text.isDigitLike c || c = '+' || c = '-' || c = '.') = true := hc
    rw [lexeme, if_neg h1, if_neg h2, if_neg h3, if_neg hq, if_pos hc', h]
    dsimp only
    rw [hn]
  | name hp hq hn hc =>
    obtain ⟨h1, h2, h3⟩ := Lexeme.ofPunctuation?_eq_none.1 hp
    have hn' : ¬(Text.isDigitLike c || c = '+' || c = '-' || c = '.') = true := by
      simpa [startsNumber] using hn
    rw [lexeme, if_neg h1, if_neg h2, if_neg h3, if_neg hq, if_neg hn', takeName, if_pos hc]

/-- Punctuation ends a lexeme as the end of the text does. -/
theorem Reads.append_cons (h : Reads c a l r) (hp : Lexeme.ofPunctuation? p = some m)
    (b : List Char) : Reads c (a ++ p :: b) l (r ++ p :: b) := by
  cases h with
  | punctuation h => exact .punctuation h
  | text hc h => exact .text hc (TextLiteral.read_append h 0 (p :: b))
  | number hn hq hc h hv =>
    refine .number hn hq hc ?_ hv
    have := Numeral.scan_append_cons (b := b) (Lexeme.ends_of_ofPunctuation? hp) (c :: a)
    rw [List.cons_append] at this
    rw [this, h]
    rfl
  | name hn hq hd hc =>
    have hpart := Lexeme.not_isNamePart_of_ofPunctuation? hp
    rw [← takeWhile_append_cons hpart a b, ← dropWhile_append_cons hpart a b]
    exact .name hn hq hd hc

/-- A lexeme that ends before punctuation is read without what follows it as well. -/
theorem Reads.of_append_cons (h : Reads c (a ++ p :: b) l (r ++ p :: b))
    (hp : Lexeme.ofPunctuation? p = some m) : Reads c a l r := by
  generalize hcs : a ++ p :: b = cs at h
  generalize hrest : r ++ p :: b = rest at h
  cases h with
  | punctuation h =>
    rw [← hcs] at hrest
    rw [List.append_cancel_right hrest]
    exact .punctuation h
  | text hc h =>
    subst hcs hrest
    exact .text hc (TextLiteral.read_of_append h 0)
  | number hn hq hc h hv =>
    refine .number hn hq hc ?_ hv
    rw [← hcs, ← List.cons_append,
      Numeral.scan_append_cons (Lexeme.ends_of_ofPunctuation? hp)] at h
    obtain ⟨⟨numeral, rest'⟩, hs, heq⟩ := Option.map_eq_some_iff.1 h
    obtain ⟨rfl, hr⟩ := Prod.mk.inj heq
    have hrest' : rest' = r := List.append_cancel_right (hr.trans hrest.symm)
    rw [hs, hrest']
  | name hn hq hd hc =>
    have hpart := Lexeme.not_isNamePart_of_ofPunctuation? hp
    subst hcs
    rw [dropWhile_append_cons hpart] at hrest
    rw [takeWhile_append_cons hpart, List.append_cancel_right hrest]
    exact .name hn hq hd hc

theorem Reads.suffix (h : Reads c cs l r) : r <:+ cs := by
  cases h with
  | punctuation h => exact List.suffix_refl _
  | text hc h => exact TextLiteral.suffix_read h
  | number hp hq hc h hn =>
    refine (List.suffix_cons_iff.1 (Numeral.suffix_scan h)).resolve_left (fun heq => ?_)
    have := Numeral.length_scan_lt h
    rw [heq] at this
    exact Nat.lt_irrefl _ this
  | name hp hq hn hc => exact List.dropWhile_suffix isNamePart

/-- Only punctuation reads as punctuation, and it reads nothing else with it. -/
theorem Reads.of_punctuation (h : Reads c cs l r) (hp : Lexeme.ofPunctuation? p = some l) :
    c = p ∧ r = cs := by
  cases h with
  | punctuation h =>
    refine ⟨?_, rfl⟩
    rcases Lexeme.of_ofPunctuation? hp with ⟨rfl, rfl⟩ | ⟨rfl, rfl⟩ | ⟨rfl, rfl⟩ <;>
      rcases Lexeme.of_ofPunctuation? h with ⟨rfl, h⟩ | ⟨rfl, h⟩ | ⟨rfl, h⟩ <;>
        first | rfl | cases h
  | text hc h => rcases Lexeme.of_ofPunctuation? hp with ⟨-, h⟩ | ⟨-, h⟩ | ⟨-, h⟩ <;> cases h
  | number => rcases Lexeme.of_ofPunctuation? hp with ⟨-, h⟩ | ⟨-, h⟩ | ⟨-, h⟩ <;> cases h
  | name => rcases Lexeme.of_ofPunctuation? hp with ⟨-, h⟩ | ⟨-, h⟩ | ⟨-, h⟩ <;> cases h

/-! ## All lexemes -/

theorem lexemesFrom_nil : lexemesFrom text i [] = .ok [] := by
  rw [lexemesFrom]

theorem lexemesFrom_blank (hb : Text.isBlank c = true) (cs : List Char) :
    lexemesFrom text i (c :: cs) = lexemesFrom text (i + 1) cs := by
  rw [lexemesFrom, if_pos hb]

theorem lexemesFrom_cons (hb : Text.isBlank c = false) (h : Reads c cs l r) :
    lexemesFrom text i (c :: cs) =
      (lexemesFrom text (i + 1 + (cs.length - r.length)) r).map (⟨l, i⟩ :: ·) := by
  have hl := lexeme_of_reads h text i
  rw [lexemesFrom, if_neg (by simp [hb])]
  split
  · next heq => rw [hl] at heq; cases heq
  · next heq => rw [hl] at heq; cases heq; rfl

variable {ls ms : List PlacedLexeme}

/-- The lexemes of a text are the same wherever it stands. -/
theorem exists_lexemesFrom (h : lexemesFrom text i cs = .ok ls) (text' : String) (j : Nat) :
    ∃ ms, lexemesFrom text' j cs = .ok ms ∧ ms.map (·.lexeme) = ls.map (·.lexeme) := by
  fun_induction lexemesFrom text i cs generalizing ls j with
  | case1 => exact ⟨[], lexemesFrom_nil, by cases h; rfl⟩
  | case2 i c cs hb ih =>
    rw [lexemesFrom_blank hb]
    exact ih h (j + 1)
  | case3 => cases h
  | case4 i c cs hb l r hl ih =>
    obtain ⟨ls, hls, rfl⟩ := exists_of_map_ok h
    obtain ⟨ms, hms, heq⟩ := ih hls (j + 1 + (cs.length - r.length))
    refine ⟨⟨l, j⟩ :: ms, ?_, by simp [heq]⟩
    rw [lexemesFrom_cons (by simpa using hb) (reads_of_lexeme hl), hms]
    rfl

/-- The lexer passes over punctuation as if a new text began behind it. -/
theorem lexemesFrom_append_cons {k : Nat} (ha : lexemesFrom text i a = .ok ls)
    (hp : Lexeme.ofPunctuation? p = some l) (hk : k = i + a.length) :
    lexemesFrom text i (a ++ p :: b) =
      (lexemesFrom text (k + 1) b).map (fun ms => ls ++ ⟨l, k⟩ :: ms) := by
  fun_induction lexemesFrom text i a generalizing ls with
  | case1 i =>
    cases ha
    simp only [List.length_nil, Nat.add_zero] at hk
    subst hk
    rw [List.nil_append, lexemesFrom_cons (Lexeme.not_isBlank_of_ofPunctuation? hp)
      (.punctuation hp), Nat.sub_self, Nat.add_zero]
    rfl
  | case2 i c a hblank ih =>
    rw [List.cons_append, lexemesFrom_blank hblank]
    exact ih ha (by simp only [List.length_cons] at hk; omega)
  | case3 => cases ha
  | case4 i c a hblank m r hm ih =>
    obtain ⟨ls, hls, rfl⟩ := exists_of_map_ok ha
    have hreads := (reads_of_lexeme hm).append_cons hp b
    have hle := length_lexeme_le hm
    rw [List.cons_append, lexemesFrom_cons (by simpa using hblank) hreads]
    have hlen : (a ++ p :: b).length - (r ++ p :: b).length = a.length - r.length := by
      simp only [List.length_append, List.length_cons]
      omega
    rw [hlen, ih hls (by simp only [List.length_cons] at hk; omega)]
    cases lexemesFrom text (k + 1) b <;> rfl

/-- Where a text has punctuation among its lexemes it falls into two sides. -/
theorem exists_sides_of_lexemesFrom {k : Nat}
    (h : lexemesFrom text i cs = .ok (ls ++ ⟨l, k⟩ :: ms))
    (hp : Lexeme.ofPunctuation? p = some l) :
    ∃ a b, cs = a ++ p :: b ∧ k = i + a.length ∧ lexemesFrom text i a = .ok ls ∧
      lexemesFrom text (k + 1) b = .ok ms := by
  fun_induction lexemesFrom text i cs generalizing ls with
  | case1 => cases ls <;> cases h
  | case2 i c cs hblank ih =>
    obtain ⟨a, b, rfl, hk, ha, hb⟩ := ih h
    refine ⟨c :: a, b, rfl, ?_, ?_, hb⟩
    · simp only [List.length_cons]; omega
    · rw [lexemesFrom_blank hblank]; exact ha
  | case3 => cases h
  | case4 i c cs hblank m r hm ih =>
    have hc : Text.isBlank c = false := by simpa using hblank
    have hreads := reads_of_lexeme hm
    obtain ⟨ns, hns, heq⟩ := exists_of_map_ok h
    cases ls with
    | nil =>
      obtain ⟨hl, rfl⟩ := List.cons.inj heq
      obtain ⟨rfl, rfl⟩ := PlacedLexeme.mk.inj hl
      obtain ⟨rfl, rfl⟩ := hreads.of_punctuation hp
      refine ⟨[], r, rfl, rfl, lexemesFrom_nil, ?_⟩
      simpa using hns
    | cons l' ls =>
      obtain ⟨rfl, rfl⟩ := List.cons.inj heq
      obtain ⟨a, b, rfl, hk, ha, hb⟩ := ih hns
      obtain ⟨front, rfl⟩ := hreads.suffix
      rw [← List.append_assoc] at hreads
      refine ⟨c :: front ++ a, b, by simp, ?_, ?_, hb⟩
      · simp only [List.length_append, List.length_cons] at hk ⊢
        omega
      · have hlen : (front ++ (a ++ p :: b)).length - (a ++ p :: b).length =
            (front ++ a).length - a.length := by
          simp only [List.length_append]
          omega
        rw [hlen] at ha
        rw [List.cons_append, lexemesFrom_cons hc (hreads.of_append_cons hp), ha]
        rfl

/-- The lexemes of a text without their positions. -/
def Lexes (cs : List Char) (ls : List Lexeme) : Prop :=
  ∃ ps, lexemesFrom "" 0 cs = .ok ps ∧ ps.map (·.lexeme) = ls

theorem lexes_nil : Lexes [] [] :=
  ⟨[], lexemesFrom_nil, rfl⟩

/-- White space, and nothing else, has no lexemes. -/
theorem lexes_nil_iff : Lexes cs [] ↔ Text.allBlank cs = true := by
  constructor
  · rintro ⟨ps, hps, hmap⟩
    obtain rfl := List.map_eq_nil_iff.1 hmap
    clear hmap
    generalize (0 : Nat) = i at hps
    induction cs generalizing i with
    | nil => rfl
    | cons c cs ih =>
      cases hb : Text.isBlank c with
      | true =>
        rw [lexemesFrom_blank hb] at hps
        exact Bool.and_eq_true_iff.2 ⟨hb, ih _ hps⟩
      | false =>
        rw [lexemesFrom, if_neg (by simp [hb])] at hps
        split at hps
        · cases hps
        · obtain ⟨ls, -, heq⟩ := exists_of_map_ok hps
          cases heq
  · intro h
    refine ⟨[], ?_, rfl⟩
    generalize (0 : Nat) = i
    induction cs generalizing i with
    | nil => exact lexemesFrom_nil
    | cons c cs ih =>
      obtain ⟨hb, hcs⟩ := Bool.and_eq_true_iff.1 h
      rw [lexemesFrom_blank hb]
      exact ih hcs _

theorem lexes_of_lexemesFrom (h : lexemesFrom text i cs = .ok ls) :
    Lexes cs (ls.map (·.lexeme)) :=
  exists_lexemesFrom h "" 0

theorem Lexes.exists_lexemesFrom {ls : List Lexeme} (h : Lexes cs ls) (text : String) (i : Nat) :
    ∃ ps, lexemesFrom text i cs = .ok ps ∧ ps.map (·.lexeme) = ls := by
  obtain ⟨ps, hps, rfl⟩ := h
  exact Selector.exists_lexemesFrom hps text i

end Selector

end FunctionCatalog
