import FunctionCatalog.Selector.Basic

/-
  FunctionCatalog: parameter text as lexemes.
  `lexemes` cuts a text into parentheses, commas, text literals, numbers and names and drops the
  white space between them. Every lexeme stands at a later index than the one before it, and within
  the text (`pairwise_lexemes`, `position_lt_of_lexemes`).
-/

namespace FunctionCatalog.Selector

/-- A fault at an index of the text. -/
def faultAt {α : Type} (fault : SelectorFault) (text : String) (position : Nat) :
    Except Rejection α :=
  .error (.parse (.selector ⟨fault, text, some position⟩))

/-- The lexeme that starts with the character `c`, at index `i`, and what follows it. -/
def lexeme (text : String) (i : Nat) (c : Char) (cs : List Char) :
    Except Rejection (Lexeme × List Char) :=
  if c = '(' then .ok (.openParen, cs)
  else if c = ')' then .ok (.closeParen, cs)
  else if c = ',' then .ok (.comma, cs)
  else if c = '"' then
    match TextLiteral.read (i + 1) cs with
    | .ok (value, rest) => .ok (.text (String.ofList value), rest)
    | .error .unterminated => faultAt .unterminatedText text i
    | .error (.badEscape d at_) => faultAt (.badEscape d) text at_
  else if Text.isDigitLike c || c = '+' || c = '-' || c = '.' then
    match Numeral.scan (c :: cs) with
    | none => faultAt .badNumber text i
    | some (numeral, rest) =>
      match numeral.value? with
      | none => .error .digitLimit
      | some n => .ok (.number n, rest)
  else
    match takeName (c :: cs) with
    | ([], _) => faultAt (.badCharacter c) text i
    | (name, rest) => .ok (.name (String.ofList name), rest)

theorem length_lexeme_le {text : String} {i : Nat} {c : Char} {cs rest : List Char} {l : Lexeme}
    (h : lexeme text i c cs = .ok (l, rest)) : rest.length ≤ cs.length := by
  unfold lexeme at h
  split at h
  · cases h; exact Nat.le_refl _
  · split at h
    · cases h; exact Nat.le_refl _
    · split at h
      · cases h; exact Nat.le_refl _
      · split at h
        · split at h
          · next hr => cases h; exact Nat.le_of_lt (TextLiteral.length_read_lt hr)
          · cases h
          · cases h
        · split at h
          · split at h
            · cases h
            · next hs =>
              have := Numeral.length_scan_lt hs
              split at h
              · cases h
              · cases h
                simp only [List.length_cons] at this
                omega
          · have hl := length_takeName (c :: cs)
            split at h
            · cases h
            · next name rest' hne heq =>
              cases h
              rw [heq] at hl
              have := List.length_pos_iff.2 hne
              simp only [List.length_cons] at hl
              omega

/-- The lexemes of the rest `cs` of a text, which starts at index `i`. -/
def lexemesFrom (text : String) (i : Nat) (cs : List Char) :
    Except Rejection (List PlacedLexeme) :=
  match cs with
  | [] => .ok []
  | c :: cs =>
    if Text.isBlank c then lexemesFrom text (i + 1) cs
    else
      match h : lexeme text i c cs with
      | .error e => .error e
      | .ok (l, rest) =>
        (lexemesFrom text (i + 1 + (cs.length - rest.length)) rest).map (⟨l, i⟩ :: ·)
termination_by cs.length
decreasing_by
  · simp
  · have := length_lexeme_le h
    simp only [List.length_cons]
    omega

def lexemes (text : String) : Except Rejection (List PlacedLexeme) :=
  lexemesFrom text 0 text.toList

theorem position_of_lexemesFrom {text : String} {i : Nat} {cs : List Char}
    {ls : List PlacedLexeme} (h : lexemesFrom text i cs = .ok ls) :
    ∀ l ∈ ls, i ≤ l.position ∧ l.position < i + cs.length := by
  fun_induction lexemesFrom text i cs generalizing ls with
  | case1 => cases h; simp
  | case2 i c cs _ ih =>
    intro l hl
    have := ih h l hl
    simp only [List.length_cons]
    omega
  | case3 => cases h
  | case4 i c cs _ l rest hl ih =>
    have hle := length_lexeme_le hl
    cases hr : lexemesFrom text (i + 1 + (cs.length - rest.length)) rest with
    | error e => rw [hr] at h; cases h
    | ok ms =>
      rw [hr] at h
      cases h
      intro m hm
      rcases List.mem_cons.1 hm with rfl | hm
      · simp
      · have := ih hr m hm
        simp only [List.length_cons]
        omega

theorem pairwise_lexemesFrom {text : String} {i : Nat} {cs : List Char}
    {ls : List PlacedLexeme} (h : lexemesFrom text i cs = .ok ls) :
    ls.Pairwise (fun a b => a.position < b.position) := by
  fun_induction lexemesFrom text i cs generalizing ls with
  | case1 => cases h; exact List.Pairwise.nil
  | case2 i c cs _ ih => exact ih h
  | case3 => cases h
  | case4 i c cs _ l rest hl ih =>
    cases hr : lexemesFrom text (i + 1 + (cs.length - rest.length)) rest with
    | error e => rw [hr] at h; cases h
    | ok ms =>
      rw [hr] at h
      cases h
      refine List.pairwise_cons.2 ⟨?_, ih hr⟩
      intro m hm
      have := position_of_lexemesFrom hr m hm
      dsimp only
      omega

theorem pairwise_lexemes {text : String} {ls : List PlacedLexeme} (h : lexemes text = .ok ls) :
    ls.Pairwise (fun a b => a.position < b.position) :=
  pairwise_lexemesFrom h

theorem position_lt_of_lexemes {text : String} {ls : List PlacedLexeme}
    (h : lexemes text = .ok ls) : ∀ l ∈ ls, l.position < text.toList.length := by
  intro l hl
  have := position_of_lexemesFrom h l hl
  omega

end FunctionCatalog.Selector
