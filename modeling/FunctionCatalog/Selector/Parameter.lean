import FunctionCatalog.Selector.Lexer

/-
  FunctionCatalog: parameter lists.
  `Parameter.parse` reads a whole parameter text at once, to every depth. A nested name is kept both
  as a selector, whose parameter text is the slice from its opening to its closing parenthesis, and
  as the list of the parameters in that slice. The slice is always shorter than the text around it
  (`length_valueText_lt`).
-/

namespace FunctionCatalog

/-- A parameter: a literal, or a nested selector together with its own parameters. -/
inductive Parameter where
  | text (s : String)
  | number (n : Number)
  | call (selector : Selector) (arguments : List Parameter)

namespace Parameter

/-- What is being parsed, and how the names in it compare. -/
structure Source where
  settings : Settings
  mode : CaseMode
  text : String

namespace Source

def fault {α : Type} (source : Source) (fault : SelectorFault) (position : Nat) :
    Except Rejection α :=
  Selector.faultAt fault source.text position

/-- The text from the parenthesis at `start` to the one at `stop`. -/
def slice (source : Source) (start stop : Nat) : List Char :=
  '(' :: (source.text.toList.drop (start + 1)).take (stop - start)

/-- The nested selector of a name with the parameter list between two parentheses. -/
def nested (source : Source) (name : Name) (start stop : Nat) : Selector :=
  { name
    valueText := String.ofList (source.slice start stop)
    isSeparated_valueText := by simp [slice, isSeparated] }

end Source

/-- The nested selector of a name without a parameter list. -/
def plain (name : Name) : Parameter :=
  .call { name, valueText := "", isSeparated_valueText := rfl } []

mutual

/-- One parameter at the front of the lexemes, and the lexemes after it. The budget bounds the
number of steps; the number of lexemes is always enough. -/
def parseValue (source : Source) : Nat → List PlacedLexeme →
    Except Rejection (Parameter × List PlacedLexeme)
  | 0, _ => source.fault .endOfParameters source.text.length
  | _, [] => source.fault .endOfParameters source.text.length
  | budget + 1, l :: ls =>
    match l.lexeme with
    | .text s => .ok (.text s, ls)
    | .number n => .ok (.number n, ls)
    | .name s => do
      let name ← Rejection.ofName (Name.make source.settings s source.mode)
      match ls with
      | ⟨.openParen, start⟩ :: rest => do
        let (arguments, stop, rest) ← parseList source budget start rest
        .ok (.call (source.nested name start stop) arguments, rest)
      | _ => .ok (plain name, ls)
    | found => source.fault (.unexpected found) l.position

/-- The parameters after the parenthesis opened at `start`, the index of the one that closes it, and
the lexemes after that. -/
def parseList (source : Source) : Nat → Nat → List PlacedLexeme →
    Except Rejection (List Parameter × Nat × List PlacedLexeme)
  | 0, _, _ => source.fault .endOfParameters source.text.length
  | budget + 1, start, ls =>
    match ls with
    | ⟨.closeParen, stop⟩ :: rest => .ok ([], stop, rest)
    | _ => parseItems source budget start ls

/-- The same where at least one parameter has to follow. -/
def parseItems (source : Source) : Nat → Nat → List PlacedLexeme →
    Except Rejection (List Parameter × Nat × List PlacedLexeme)
  | 0, _, _ => source.fault .endOfParameters source.text.length
  | budget + 1, start, ls => do
    let (value, rest) ← parseValue source budget ls
    match rest with
    | [] => source.fault .unclosedList start
    | ⟨.closeParen, stop⟩ :: rest => .ok ([value], stop, rest)
    | ⟨.comma, _⟩ :: rest => do
      let (values, stop, rest) ← parseItems source budget start rest
      .ok (value :: values, stop, rest)
    | ⟨found, position⟩ :: _ => source.fault (.separatorExpected found) position

end

/-- The parameters that a text writes: none when it is blank, else those of its one list. -/
def parse (settings : Settings) (mode : CaseMode) (text : String) :
    Except Rejection (List Parameter) := do
  let source : Source := ⟨settings, mode, text⟩
  match ← Selector.lexemes text with
  | [] => .ok []
  | ⟨.openParen, start⟩ :: ls =>
    let (values, _, rest) ← parseList source (3 * ls.length + 3) start ls
    match rest with
    | [] => .ok values
    | l :: _ => source.fault (.unexpected l.lexeme) l.position
  | _ => .error (.parse (.selector ⟨.listExpected, text, none⟩))

/-- The nested selector of a parameter has a shorter text than `n` characters. -/
def ShorterThan (n : Nat) : Parameter → Prop
  | .call selector _ => selector.valueText.toList.length < n
  | _ => True

theorem length_slice_lt {source : Source} {start stop : Nat} (h : 0 < start)
    (hs : start < source.text.toList.length) :
    (source.slice start stop).length < source.text.toList.length := by
  simp only [Source.slice, List.length_cons, List.length_take, List.length_drop]
  omega

/-- Every lexeme stands after the first character and within the text. -/
def Source.Inside (source : Source) (ls : List PlacedLexeme) : Prop :=
  ∀ l ∈ ls, 0 < l.position ∧ l.position < source.text.toList.length

theorem Source.Inside.of_suffix {source : Source} {ls ms : List PlacedLexeme}
    (h : source.Inside ls) (hs : ms <:+ ls) : source.Inside ms :=
  fun l hl => h l (hs.subset hl)

theorem suffix_of_parse (source : Source) (budget : Nat) :
    (∀ ls v rest, parseValue source budget ls = .ok (v, rest) → rest <:+ ls) ∧
    (∀ start ls vs stop rest, parseList source budget start ls = .ok (vs, stop, rest) →
      rest <:+ ls) ∧
    (∀ start ls vs stop rest, parseItems source budget start ls = .ok (vs, stop, rest) →
      rest <:+ ls) := by
  induction budget with
  | zero =>
    refine ⟨?_, ?_, ?_⟩ <;> intros <;>
      simp_all [parseValue, parseList, parseItems, Source.fault, Selector.faultAt]
  | succ budget ih =>
    obtain ⟨ihv, ihl, ihi⟩ := ih
    refine ⟨?_, ?_, ?_⟩
    · intro ls v rest h
      cases ls with
      | nil => simp [parseValue, Source.fault, Selector.faultAt] at h
      | cons l ls =>
        rw [parseValue] at h
        split at h
        · cases h; exact List.suffix_cons _ _
        · cases h; exact List.suffix_cons _ _
        · next s _ =>
          cases hn : Rejection.ofName (Name.make source.settings s source.mode) with
          | error e => rw [hn] at h; cases h
          | ok name =>
            rw [hn] at h
            simp only [bind, Except.bind] at h
            split at h
            · next start inner =>
              cases hp : parseList source budget start inner with
              | error e => rw [hp] at h; cases h
              | ok r =>
                obtain ⟨args, stop, rest'⟩ := r
                rw [hp] at h
                cases h
                exact ((ihl _ _ _ _ _ hp).trans (List.suffix_cons _ _)).trans
                  (List.suffix_cons _ _)
            · cases h; exact List.suffix_cons _ _
        · simp [Source.fault, Selector.faultAt] at h
    · intro start ls vs stop rest h
      unfold parseList at h
      split at h
      · cases h; exact List.suffix_cons _ _
      · exact ihi _ _ _ _ _ h
    · intro start ls vs stop rest h
      rw [parseItems] at h
      cases hv : parseValue source budget ls with
      | error e => rw [hv] at h; cases h
      | ok r =>
        obtain ⟨v, mid⟩ := r
        have hs := ihv _ _ _ hv
        rw [hv] at h
        simp only [bind, Except.bind] at h
        split at h
        · simp [Source.fault, Selector.faultAt] at h
        · cases h; exact (List.suffix_cons _ _).trans hs
        · next inner =>
          cases hi : parseItems source budget start inner with
          | error e => rw [hi] at h; cases h
          | ok r =>
            obtain ⟨ws, stop', rest'⟩ := r
            rw [hi] at h
            cases h
            exact ((ihi _ _ _ _ _ hi).trans (List.suffix_cons _ _)).trans hs
        · simp [Source.fault, Selector.faultAt] at h

theorem shorterThan_of_parseValue {source : Source} {budget : Nat} {ls rest : List PlacedLexeme}
    {v : Parameter} (hls : source.Inside ls)
    (h : parseValue source budget ls = .ok (v, rest)) :
    v.ShorterThan source.text.toList.length := by
  cases budget with
  | zero => simp [parseValue, Source.fault, Selector.faultAt] at h
  | succ budget =>
    cases ls with
    | nil => simp [parseValue, Source.fault, Selector.faultAt] at h
    | cons l ls =>
      have hl := hls l (List.mem_cons_self)
      rw [parseValue] at h
      split at h
      · cases h; trivial
      · cases h; trivial
      · next s _ =>
        cases hn : Rejection.ofName (Name.make source.settings s source.mode) with
        | error e => rw [hn] at h; cases h
        | ok name =>
          rw [hn] at h
          simp only [bind, Except.bind] at h
          split at h
          · next start inner =>
            cases hp : parseList source budget start inner with
            | error e => rw [hp] at h; cases h
            | ok r =>
              obtain ⟨args, stop, rest'⟩ := r
              rw [hp] at h
              cases h
              have := hls ⟨.openParen, start⟩ (by simp)
              simpa [ShorterThan, Source.nested] using length_slice_lt this.1 this.2
          · cases h
            simp only [plain, ShorterThan, String.toList_empty, List.length_nil]
            omega
      · simp [Source.fault, Selector.faultAt] at h

theorem shorterThan_of_parseItems {source : Source} {budget start stop : Nat}
    {ls rest : List PlacedLexeme} {vs : List Parameter} (hls : source.Inside ls)
    (h : parseItems source budget start ls = .ok (vs, stop, rest)) :
    ∀ v ∈ vs, v.ShorterThan source.text.toList.length := by
  induction budget generalizing ls vs stop rest with
  | zero => simp [parseItems, Source.fault, Selector.faultAt] at h
  | succ budget ih =>
    rw [parseItems] at h
    cases hv : parseValue source budget ls with
    | error e => rw [hv] at h; cases h
    | ok r =>
      obtain ⟨v, mid⟩ := r
      have hsuf := (suffix_of_parse source budget).1 _ _ _ hv
      have hshort := shorterThan_of_parseValue hls hv
      rw [hv] at h
      simp only [bind, Except.bind] at h
      split at h
      · simp [Source.fault, Selector.faultAt] at h
      · cases h; simpa using hshort
      · next inner =>
        cases hi : parseItems source budget start inner with
        | error e => rw [hi] at h; cases h
        | ok r =>
          obtain ⟨ws, stop', rest'⟩ := r
          have hin := (hls.of_suffix hsuf).of_suffix (List.suffix_cons _ _)
          have hrec := ih hin hi
          rw [hi] at h
          cases h
          intro w hw
          rcases List.mem_cons.1 hw with rfl | hw
          · exact hshort
          · exact hrec w hw
      · simp [Source.fault, Selector.faultAt] at h

theorem shorterThan_of_parseList {source : Source} {budget start stop : Nat}
    {ls rest : List PlacedLexeme} {vs : List Parameter} (hls : source.Inside ls)
    (h : parseList source budget start ls = .ok (vs, stop, rest)) :
    ∀ v ∈ vs, v.ShorterThan source.text.toList.length := by
  cases budget with
  | zero => simp [parseList, Source.fault, Selector.faultAt] at h
  | succ budget =>
    unfold parseList at h
    split at h
    · cases h; simp
    · exact shorterThan_of_parseItems hls h

/-- A nested selector has a shorter parameter text than the list it stands in. -/
theorem length_valueText_lt {settings : Settings} {mode : CaseMode} {text : String}
    {vs : List Parameter} (h : parse settings mode text = .ok vs) :
    ∀ v ∈ vs, v.ShorterThan text.toList.length := by
  unfold parse at h
  cases hl : Selector.lexemes text with
  | error e => rw [hl] at h; cases h
  | ok ls =>
    rw [hl] at h
    simp only [bind, Except.bind] at h
    split at h
    · cases h; simp
    · next start inner =>
      have hpair := List.pairwise_cons.1 (Selector.pairwise_lexemes hl)
      have hlt := Selector.position_lt_of_lexemes hl
      have hin : Source.Inside ⟨settings, mode, text⟩ inner := fun l hm =>
        ⟨Nat.lt_of_le_of_lt (Nat.zero_le _) (hpair.1 l hm), hlt l (List.mem_cons_of_mem _ hm)⟩
      split at h
      · cases h
      · next r hp =>
        obtain ⟨ws, stop, rest⟩ := r
        dsimp only at h
        split at h
        · cases h; exact shorterThan_of_parseList hin hp
        · simp [Source.fault, Selector.faultAt] at h
    · cases h

end Parameter

end FunctionCatalog
