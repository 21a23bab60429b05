import FunctionCatalog.Proofs.Selector.Lexing
import FunctionCatalog.Selector.Parse

/-
  FunctionCatalog: what a parameter text says, told by its characters alone.
  `Parameter.Spells` cuts a text at its own parentheses and commas, without positions, lexeme lists
  or budgets, so a slice of a text says the same alone as it does in its place. The parser accepts
  exactly the texts that spell a list, with exactly those parameters (`parse_eq_ok_iff`).
-/

namespace FunctionCatalog.Parameter

variable {settings : Settings} {mode : CaseMode}

/-- The selector of a name with a parameter list of the characters `cs`. -/
def listed (name : Name) (cs : List Char) : Selector :=
  { name
    valueText := String.ofList ('(' :: (cs ++ [')']))
    isSeparated_valueText := by simp [isSeparated] }

/-- The characters spell one or more parameters with a comma after each but the last. -/
inductive Spells (settings : Settings) (mode : CaseMode) : List Parameter → List Char → Prop
  | text {cs : List Char} {s : String} (h : Selector.Lexes cs [.text s]) :
      Spells settings mode [.text s] cs
  | number {cs : List Char} {n : Number} (h : Selector.Lexes cs [.number n]) :
      Spells settings mode [.number n] cs
  | plain {cs : List Char} {s : String} {name : Name} (h : Selector.Lexes cs [.name s])
      (hn : Name.make settings s mode = .ok name) :
      Spells settings mode [plain name] cs
  | empty {a b c : List Char} {s : String} {name : Name} (ha : Selector.Lexes a [.name s])
      (hn : Name.make settings s mode = .ok name) (hb : Selector.Lexes b [])
      (hc : Selector.Lexes c []) :
      Spells settings mode [.call (listed name b) []] (a ++ '(' :: (b ++ ')' :: c))
  | call {a b c : List Char} {s : String} {name : Name} {arguments : List Parameter}
      (ha : Selector.Lexes a [.name s]) (hn : Name.make settings s mode = .ok name)
      (hb : Spells settings mode arguments b) (hc : Selector.Lexes c []) :
      Spells settings mode [.call (listed name b) arguments] (a ++ '(' :: (b ++ ')' :: c))
  | cons {a b : List Char} {v : Parameter} {vs : List Parameter}
      (ha : Spells settings mode [v] a) (hb : Spells settings mode vs b) :
      Spells settings mode (v :: vs) (a ++ ',' :: b)

/-- The characters between two parentheses spell any number of parameters. -/
def SpellsAll (settings : Settings) (mode : CaseMode) (vs : List Parameter) (cs : List Char) :
    Prop :=
  (vs = [] ∧ Selector.Lexes cs []) ∨ Spells settings mode vs cs

/-- The characters spell a parameter list with white space around it. -/
def SpellsList (settings : Settings) (mode : CaseMode) (vs : List Parameter) (cs : List Char) :
    Prop :=
  ∃ a b c, cs = a ++ '(' :: (b ++ ')' :: c) ∧ Selector.Lexes a [] ∧
    SpellsAll settings mode vs b ∧ Selector.Lexes c []

theorem SpellsAll.call {a b c : List Char} {s : String} {name : Name} {arguments : List Parameter}
    (ha : Selector.Lexes a [.name s]) (hn : Name.make settings s mode = .ok name)
    (hb : SpellsAll settings mode arguments b) (hc : Selector.Lexes c []) :
    Spells settings mode [.call (listed name b) arguments] (a ++ '(' :: (b ++ ')' :: c)) := by
  rcases hb with ⟨rfl, hb⟩ | hb
  · exact .empty ha hn hb hc
  · exact .call ha hn hb hc

/-- A text that spells parameters spells as many in every mode. -/
theorem Spells.exists_inMode {vs : List Parameter} {cs : List Char}
    (h : Spells settings mode vs cs) (mode' : CaseMode) :
    ∃ ws, ws.length = vs.length ∧ Spells settings mode' ws cs := by
  induction h with
  | text h => exact ⟨_, rfl, .text h⟩
  | number h => exact ⟨_, rfl, .number h⟩
  | plain h hn => exact ⟨[_], by simp, .plain h (Name.exists_make_inMode hn mode')⟩
  | empty ha hn hb hc => exact ⟨[_], by simp, .empty ha (Name.exists_make_inMode hn mode') hb hc⟩
  | call ha hn _ hc ih =>
    obtain ⟨ws, -, hws⟩ := ih
    exact ⟨[_], by simp, .call ha (Name.exists_make_inMode hn mode') hws hc⟩
  | cons _ _ iha ihb =>
    obtain ⟨us, hlen, hus⟩ := iha
    obtain ⟨ws, hlen', hws⟩ := ihb
    obtain ⟨u, rfl⟩ := List.length_eq_one_iff.1 hlen
    exact ⟨u :: ws, congrArg (· + 1) hlen', .cons hus hws⟩

theorem SpellsAll.exists_inMode {vs : List Parameter} {cs : List Char}
    (h : SpellsAll settings mode vs cs) (mode' : CaseMode) :
    ∃ ws, SpellsAll settings mode' ws cs := by
  rcases h with ⟨-, h⟩ | h
  · exact ⟨[], .inl ⟨rfl, h⟩⟩
  · obtain ⟨ws, -, hws⟩ := h.exists_inMode mode'
    exact ⟨ws, .inr hws⟩

/-! ## Texts in their places -/

namespace Source

variable {source : Source} {i k : Nat} {cs : List Char} {ls ms : List PlacedLexeme}

/-- The characters stand in the source from index `i` on and are these lexemes there. -/
def Holds (source : Source) (i : Nat) (cs : List Char) (ls : List PlacedLexeme) : Prop :=
  cs <+: source.text.toList.drop i ∧ Selector.lexemesFrom source.text i cs = .ok ls

theorem Holds.lexes (h : source.Holds i cs ls) : Selector.Lexes cs (ls.map (·.lexeme)) :=
  Selector.lexes_of_lexemesFrom h.2

/-- What stands in the source falls apart where a character of it does. -/
theorem prefix_sides {a b : List Char} {p : Char}
    (h : (a ++ p :: b) <+: source.text.toList.drop i) :
    a <+: source.text.toList.drop i ∧ b <+: source.text.toList.drop (i + a.length + 1) := by
  refine ⟨(List.prefix_append a (p :: b)).trans h, ?_⟩
  obtain ⟨tail, htail⟩ := h
  refine ⟨tail, ?_⟩
  rw [Nat.add_assoc, ← List.drop_drop, ← htail, List.append_assoc, List.drop_append]
  simp

theorem Holds.append {a b : List Char} {p : Char} {l : Lexeme}
    (h : (a ++ p :: b) <+: source.text.toList.drop i) (hp : Lexeme.ofPunctuation? p = some l)
    (ha : source.Holds i a ls) (hb : source.Holds (i + a.length + 1) b ms) :
    source.Holds i (a ++ p :: b) (ls ++ ⟨l, i + a.length⟩ :: ms) := by
  refine ⟨h, ?_⟩
  rw [Selector.lexemesFrom_append_cons ha.2 hp rfl, hb.2]
  rfl

/-- The lexemes of the left side are the first ones of the whole. -/
theorem Holds.exists_right {a b : List Char} {p : Char} {l : Lexeme} {ns : List PlacedLexeme}
    (h : source.Holds i (a ++ p :: b) ns) (hp : Lexeme.ofPunctuation? p = some l)
    (ha : source.Holds i a ls) :
    ∃ ms, ns = ls ++ ⟨l, i + a.length⟩ :: ms ∧ source.Holds (i + a.length + 1) b ms := by
  obtain ⟨hstands, hns⟩ := h
  rw [Selector.lexemesFrom_append_cons ha.2 hp rfl] at hns
  obtain ⟨ms, hms, rfl⟩ := exists_of_map_ok hns
  exact ⟨ms, rfl, (prefix_sides hstands).2, hms⟩

theorem Holds.exists_sides {p : Char} {l : Lexeme} (h : source.Holds i cs (ls ++ ⟨l, k⟩ :: ms))
    (hp : Lexeme.ofPunctuation? p = some l) :
    ∃ a b, cs = a ++ p :: b ∧ k = i + a.length ∧ source.Holds i a ls ∧
      source.Holds (k + 1) b ms := by
  obtain ⟨a, b, rfl, rfl, ha, hb⟩ := Selector.exists_sides_of_lexemesFrom h.2 hp
  obtain ⟨hleft, hright⟩ := prefix_sides h.1
  exact ⟨a, b, rfl, rfl, ⟨hleft, ha⟩, hright, hb⟩

theorem exists_of_lexes_singleton {l : Lexeme} (h : Selector.Lexes cs [l])
    (hcs : cs <+: source.text.toList.drop i) : ∃ k, source.Holds i cs [⟨l, k⟩] := by
  obtain ⟨ls, hls, hmap⟩ := h.exists_lexemesFrom source.text i
  obtain ⟨⟨m, k⟩, rfl, rfl⟩ := List.map_eq_singleton_iff.1 hmap
  exact ⟨k, hcs, hls⟩

theorem holds_of_lexes_nil (h : Selector.Lexes cs []) (hcs : cs <+: source.text.toList.drop i) :
    source.Holds i cs [] := by
  obtain ⟨ls, hls, hmap⟩ := h.exists_lexemesFrom source.text i
  obtain rfl := List.map_eq_nil_iff.1 hmap
  exact ⟨hcs, hls⟩

/-- The slice of a parameter list is the list. -/
theorem slice_eq {b c : List Char} (h : (b ++ ')' :: c) <+: source.text.toList.drop (i + 1)) :
    source.slice i (i + 1 + b.length) = '(' :: (b ++ [')']) := by
  obtain ⟨tail, htail⟩ := h
  have hlen : i + 1 + b.length - i = (b ++ [')']).length := by
    simp only [List.length_append, List.length_cons, List.length_nil]
    omega
  have hsplit : (b ++ ')' :: c) ++ tail = (b ++ [')']) ++ (c ++ tail) := by simp
  rw [slice, ← htail, hlen, hsplit, List.take_left']
  rfl

theorem nested_eq {b c : List Char} (name : Name)
    (h : (b ++ ')' :: c) <+: source.text.toList.drop (i + 1)) :
    source.nested name i (i + 1 + b.length) = listed name b := by
  simp only [nested, listed, slice_eq h]

end Source

/-! ## What is accepted spells a list -/

variable {source : Source} {budget : Nat}

/-- With this budget, a parameter that is read is spelt by the lexemes it takes. -/
def ValueSound (source : Source) (budget : Nat) : Prop :=
  ∀ ls v rest, parseValue source budget ls = .ok (v, rest) →
    ∃ used, ls = used ++ rest ∧
      ∀ i cs, source.Holds i cs used → Spells source.settings source.mode [v] cs

def ItemsSound (source : Source) (budget : Nat) : Prop :=
  ∀ start ls vs stop rest, parseItems source budget start ls = .ok (vs, stop, rest) →
    ∃ used, ls = used ++ ⟨.closeParen, stop⟩ :: rest ∧
      ∀ i cs, source.Holds i cs used → Spells source.settings source.mode vs cs

def ListSound (source : Source) (budget : Nat) : Prop :=
  ∀ start ls vs stop rest, parseList source budget start ls = .ok (vs, stop, rest) →
    ∃ used, ls = used ++ ⟨.closeParen, stop⟩ :: rest ∧
      ∀ i cs, source.Holds i cs used → SpellsAll source.settings source.mode vs cs

theorem valueSound_succ (hlist : ListSound source budget) : ValueSound source (budget + 1) := by
  intro ls v rest h
  cases ls with
  | nil => simp [parseValue, Source.fault, Selector.faultAt] at h
  | cons l ls =>
    obtain ⟨lexeme, position⟩ := l
    rw [parseValue] at h
    split at h
    · next s hl =>
      cases h
      cases hl
      exact ⟨[⟨.text s, position⟩], rfl, fun i cs hcs => .text hcs.lexes⟩
    · next n hl =>
      cases h
      cases hl
      exact ⟨[⟨.number n, position⟩], rfl, fun i cs hcs => .number hcs.lexes⟩
    · next s hl =>
      cases hl
      obtain ⟨name, hmake, htail⟩ := exists_of_bind_ok h
      have hname := ok_of_mapError_ok hmake
      clear h
      split at htail
      · next start inner =>
        obtain ⟨⟨arguments, stop, after⟩, hp, hend⟩ := exists_of_bind_ok htail
        cases hend
        obtain ⟨used, rfl, hused⟩ := hlist _ _ _ _ _ hp
        refine ⟨⟨.name s, position⟩ :: ⟨.openParen, start⟩ :: (used ++ [⟨.closeParen, stop⟩]),
          by simp, fun i cs hcs => ?_⟩
        have hopen : source.Holds i cs ([⟨.name s, position⟩] ++
          ⟨.openParen, start⟩ :: (used ++ ⟨.closeParen, stop⟩ :: [])) := hcs
        obtain ⟨a, rest, rfl, rfl, ha, hrest⟩ := hopen.exists_sides (p := '(') rfl
        obtain ⟨b, c, rfl, rfl, hb, hc⟩ := hrest.exists_sides (p := ')') rfl
        rw [Source.nested_eq name hrest.1]
        exact SpellsAll.call ha.lexes hname (hused _ _ hb) hc.lexes
      · cases htail
        exact ⟨[⟨.name s, position⟩], rfl, fun i cs hcs => .plain hcs.lexes hname⟩
    · simp [Source.fault, Selector.faultAt] at h

theorem listSound_succ (hitems : ItemsSound source budget) : ListSound source (budget + 1) := by
  intro start ls vs stop rest h
  unfold parseList at h
  split at h
  · cases h
    exact ⟨[], rfl, fun i cs hcs => .inl ⟨rfl, hcs.lexes⟩⟩
  · obtain ⟨used, rfl, hused⟩ := hitems _ _ _ _ _ h
    exact ⟨used, rfl, fun i cs hcs => .inr (hused i cs hcs)⟩

theorem itemsSound_succ (hvalue : ValueSound source budget) (hitems : ItemsSound source budget) :
    ItemsSound source (budget + 1) := by
  intro start ls vs stop rest h
  rw [parseItems] at h
  obtain ⟨⟨v, mid⟩, hv, htail⟩ := exists_of_bind_ok h
  clear h
  obtain ⟨first, rfl, hfirst⟩ := hvalue _ _ _ hv
  dsimp only at htail
  split at htail
  · simp [Source.fault, Selector.faultAt] at htail
  · cases htail
    exact ⟨first, rfl, hfirst⟩
  · next position inner =>
    obtain ⟨⟨ws, stop', after⟩, hi, hend⟩ := exists_of_bind_ok htail
    cases hend
    obtain ⟨used, rfl, hused⟩ := hitems _ _ _ _ _ hi
    refine ⟨first ++ ⟨.comma, position⟩ :: used, by simp, fun i cs hcs => ?_⟩
    obtain ⟨a, b, rfl, -, ha, hb⟩ := hcs.exists_sides (p := ',') rfl
    exact .cons (hfirst _ _ ha) (hused _ _ hb)
  · simp [Source.fault, Selector.faultAt] at htail

theorem sound (source : Source) (budget : Nat) :
    ValueSound source budget ∧ ListSound source budget ∧ ItemsSound source budget := by
  induction budget with
  | zero =>
    refine ⟨?_, ?_, ?_⟩ <;> intro <;> intros <;>
      simp_all [parseValue, parseList, parseItems, Source.fault, Selector.faultAt]
  | succ budget ih =>
    obtain ⟨hvalue, hlist, hitems⟩ := ih
    exact ⟨valueSound_succ hlist, listSound_succ hitems, itemsSound_succ hvalue hitems⟩

/-! ## What spells a list is accepted -/

/-- These lexemes are read as one parameter and need `3 * used.length + 1` steps for it, whatever
follows them, except that a parenthesis after a name would be taken for its list. -/
def ValueRead (source : Source) (used : List PlacedLexeme) (v : Parameter) : Prop :=
  ∀ rest budget, (∀ start inner, rest ≠ ⟨.openParen, start⟩ :: inner) →
    3 * used.length + 1 ≤ budget → parseValue source budget (used ++ rest) = .ok (v, rest)

def ItemsRead (source : Source) (used : List PlacedLexeme) (vs : List Parameter) : Prop :=
  ∀ start stop rest budget, 3 * used.length + 2 ≤ budget →
    parseItems source budget start (used ++ ⟨.closeParen, stop⟩ :: rest) = .ok (vs, stop, rest)

def ListRead (source : Source) (used : List PlacedLexeme) (vs : List Parameter) : Prop :=
  ∀ start stop rest budget, 3 * used.length + 3 ≤ budget →
    parseList source budget start (used ++ ⟨.closeParen, stop⟩ :: rest) = .ok (vs, stop, rest)

variable {used after : List PlacedLexeme} {v : Parameter} {vs : List Parameter}

theorem ValueRead.of_literal {l : PlacedLexeme}
    (h : ∀ budget rest, parseValue source (budget + 1) (l :: rest) = .ok (v, rest)) :
    ValueRead source [l] v := by
  intro rest budget _ hbudget
  obtain ⟨budget, rfl⟩ := Nat.exists_eq_add_of_le' (Nat.one_le_of_lt hbudget)
  exact h budget rest

theorem ValueRead.of_plain {s : String} {name : Name} (k : Nat)
    (hn : Name.make source.settings s source.mode = .ok name) :
    ValueRead source [⟨.name s, k⟩] (plain name) := by
  intro rest budget hrest hbudget
  obtain ⟨budget, rfl⟩ := Nat.exists_eq_add_of_le' (Nat.one_le_of_lt hbudget)
  rw [List.singleton_append, parseValue]
  simp only [hn, Rejection.ofName_ok, bind, Except.bind]

theorem ValueRead.of_list {s : String} {name : Name} (k start stop : Nat)
    (hn : Name.make source.settings s source.mode = .ok name) (hlist : ListRead source used vs) :
    ValueRead source (⟨.name s, k⟩ :: ⟨.openParen, start⟩ :: (used ++ [⟨.closeParen, stop⟩]))
      (.call (source.nested name start stop) vs) := by
  intro rest budget _ hbudget
  obtain ⟨budget, rfl⟩ := Nat.exists_eq_add_of_le' (Nat.one_le_of_lt hbudget)
  simp only [List.length_cons, List.length_append, List.length_nil] at hbudget
  have hinner := hlist start stop rest budget (by omega)
  rw [List.cons_append, List.cons_append, List.append_assoc, List.singleton_append, parseValue]
  simp only [hn, Rejection.ofName_ok, bind, Except.bind, hinner]

theorem ListRead.nil : ListRead source [] [] := by
  intro start stop rest budget hbudget
  obtain ⟨budget, rfl⟩ := Nat.exists_eq_add_of_le' (Nat.one_le_of_lt hbudget)
  rw [List.nil_append, parseList]

theorem ItemsRead.of_value (h : ValueRead source used v) : ItemsRead source used [v] := by
  intro start stop rest budget hbudget
  obtain ⟨budget, rfl⟩ := Nat.exists_eq_add_of_le' (Nat.one_le_of_lt hbudget)
  have hv := h (⟨.closeParen, stop⟩ :: rest) budget (by simp) (by omega)
  simp only [parseItems, hv, bind, Except.bind]

theorem ItemsRead.cons (k : Nat) (hv : ValueRead source used v) (hvs : ItemsRead source after vs) :
    ItemsRead source (used ++ ⟨.comma, k⟩ :: after) (v :: vs) := by
  intro start stop rest budget hbudget
  obtain ⟨budget, rfl⟩ := Nat.exists_eq_add_of_le' (Nat.one_le_of_lt hbudget)
  simp only [List.length_append, List.length_cons] at hbudget
  have hfirst := hv (⟨.comma, k⟩ :: (after ++ ⟨.closeParen, stop⟩ :: rest)) budget (by simp)
    (by omega)
  have hothers := hvs start stop rest budget (by omega)
  rw [List.append_assoc, List.cons_append]
  simp only [parseItems, hfirst, hothers, bind, Except.bind]

/-- What spells one or more parameters is read as these, wherever it stands. The first lexeme is
no closing parenthesis, which would be taken for the end of an empty list. -/
structure Accepted (source : Source) (vs : List Parameter) (used : List PlacedLexeme) : Prop where
  first : ∃ l ls, used = l :: ls ∧ l.lexeme ≠ .closeParen
  value : ∀ v, vs = [v] → ValueRead source used v
  items : ItemsRead source used vs

theorem Accepted.list (h : Accepted source vs used) : ListRead source used vs := by
  intro start stop rest budget hbudget
  obtain ⟨budget, rfl⟩ := Nat.exists_eq_add_of_le' (Nat.one_le_of_lt hbudget)
  obtain ⟨l, ls, rfl, hl⟩ := h.first
  have hitems := h.items start stop rest budget (by omega)
  rw [List.cons_append] at hitems ⊢
  rw [parseList]
  · exact hitems
  · intro k ms heq
    cases heq
    exact hl rfl

theorem Accepted.of_value {l : PlacedLexeme} {ls : List PlacedLexeme}
    (hl : l.lexeme ≠ .closeParen) (h : ValueRead source (l :: ls) v) :
    Accepted source [v] (l :: ls) where
  first := ⟨l, ls, rfl, hl⟩
  value := by
    intro w hw
    cases hw
    exact h
  items := .of_value h

/-- A name and the parentheses after it, given the list between these. -/
theorem exists_accepted_call {a b c : List Char} {s : String} {name : Name} {i : Nat}
    (ha : Selector.Lexes a [.name s]) (hn : Name.make source.settings s source.mode = .ok name)
    (hb : ∀ k, b <+: source.text.toList.drop k →
      ∃ used, source.Holds k b used ∧ ListRead source used vs)
    (hc : Selector.Lexes c [])
    (hcs : (a ++ '(' :: (b ++ ')' :: c)) <+: source.text.toList.drop i) :
    ∃ used, source.Holds i (a ++ '(' :: (b ++ ')' :: c)) used ∧
      Accepted source [.call (listed name b) vs] used := by
  obtain ⟨hpa, hpbc⟩ := Source.prefix_sides hcs
  obtain ⟨hpb, hpc⟩ := Source.prefix_sides hpbc
  obtain ⟨k, ha⟩ := Source.exists_of_lexes_singleton ha hpa
  obtain ⟨used, hused, hlist⟩ := hb _ hpb
  have hright := Source.Holds.append hpbc rfl hused (Source.holds_of_lexes_nil hc hpc)
  refine ⟨_, Source.Holds.append hcs rfl ha hright, ?_⟩
  rw [← Source.nested_eq name hpbc]
  exact .of_value (by simp) (.of_list k _ _ hn hlist)

theorem exists_accepted {cs : List Char} (h : Spells source.settings source.mode vs cs) :
    ∀ i, cs <+: source.text.toList.drop i →
      ∃ used, source.Holds i cs used ∧ Accepted source vs used := by
  induction h with
  | text h =>
    intro i hcs
    obtain ⟨k, hk⟩ := Source.exists_of_lexes_singleton h hcs
    exact ⟨_, hk, .of_value (by simp) (.of_literal fun budget rest => by rw [parseValue])⟩
  | number h =>
    intro i hcs
    obtain ⟨k, hk⟩ := Source.exists_of_lexes_singleton h hcs
    exact ⟨_, hk, .of_value (by simp) (.of_literal fun budget rest => by rw [parseValue])⟩
  | plain h hn =>
    intro i hcs
    obtain ⟨k, hk⟩ := Source.exists_of_lexes_singleton h hcs
    exact ⟨_, hk, .of_value (by simp) (.of_plain k hn)⟩
  | empty ha hn hb hc =>
    intro i hcs
    exact exists_accepted_call ha hn
      (fun k hk => ⟨[], Source.holds_of_lexes_nil hb hk, .nil⟩) hc hcs
  | call ha hn _ hc ih =>
    intro i hcs
    refine exists_accepted_call ha hn (fun k hk => ?_) hc hcs
    obtain ⟨used, hused, haccepted⟩ := ih k hk
    exact ⟨used, hused, haccepted.list⟩
  | @cons a b v vs _ _ iha ihb =>
    intro i hcs
    obtain ⟨hpa, hpb⟩ := Source.prefix_sides hcs
    obtain ⟨used, hused, hv⟩ := iha i hpa
    obtain ⟨after, hafter, hvs⟩ := ihb _ hpb
    refine ⟨_, Source.Holds.append hcs rfl hused hafter, ?_, ?_, ?_⟩
    · obtain ⟨l, ls, rfl, hl⟩ := hv.first
      exact ⟨l, _, rfl, hl⟩
    · -- a list of one parameter has no comma
      intro w hw
      obtain ⟨-, rfl⟩ := List.cons.inj hw
      exact absurd ‹Spells _ _ [] b› (by intro h; cases h)
    · exact .cons _ (hv.value v rfl) hvs.items

theorem exists_of_spellsAll {cs : List Char} {i : Nat}
    (h : SpellsAll source.settings source.mode vs cs) (hcs : cs <+: source.text.toList.drop i) :
    ∃ used, source.Holds i cs used ∧ ListRead source used vs := by
  rcases h with ⟨rfl, h⟩ | h
  · exact ⟨[], Source.holds_of_lexes_nil h hcs, .nil⟩
  · obtain ⟨used, hused, haccepted⟩ := exists_accepted h i hcs
    exact ⟨used, hused, haccepted.list⟩

/-! ## Whole texts -/

variable {text : String}

theorem spells_of_parse (h : parse settings mode text = .ok vs) :
    (vs = [] ∧ Selector.Lexes text.toList []) ∨ SpellsList settings mode vs text.toList := by
  obtain ⟨ls, hls, htail⟩ := exists_of_bind_ok h
  dsimp only at htail
  split at htail
  · cases htail
    exact .inl ⟨rfl, Selector.lexes_of_lexemesFrom hls⟩
  · next start inner =>
    obtain ⟨⟨ws, stop, rest⟩, hlist, hend⟩ := exists_of_bind_ok htail
    dsimp only at hend
    split at hend
    · cases hend
      obtain ⟨used, rfl, hused⟩ := (sound ⟨settings, mode, text⟩ _).2.1 _ _ _ _ _ hlist
      have hholds : Source.Holds ⟨settings, mode, text⟩ 0 text.toList
        ([] ++ ⟨.openParen, start⟩ :: (used ++ ⟨.closeParen, stop⟩ :: [])) :=
        ⟨List.prefix_refl _, hls⟩
      obtain ⟨a, rest, heq, -, ha, hrest⟩ := hholds.exists_sides (p := '(') rfl
      obtain ⟨b, c, rfl, -, hb, hc⟩ := hrest.exists_sides (p := ')') rfl
      exact .inr ⟨a, b, c, heq, ha.lexes, hused _ _ hb, hc.lexes⟩
    · simp [Source.fault, Selector.faultAt] at hend
  · cases htail

theorem parse_of_spellsList (h : SpellsList settings mode vs text.toList) :
    parse settings mode text = .ok vs := by
  obtain ⟨a, b, c, hcs, ha, hb, hc⟩ := h
  let source : Source := ⟨settings, mode, text⟩
  have hprefix : (a ++ '(' :: (b ++ ')' :: c)) <+: source.text.toList.drop 0 := by
    rw [← hcs]
    exact List.prefix_refl _
  obtain ⟨hpa, hpbc⟩ := Source.prefix_sides hprefix
  obtain ⟨hpb, hpc⟩ := Source.prefix_sides hpbc
  have hspells : SpellsAll source.settings source.mode vs b := hb
  obtain ⟨used, hused, hread⟩ := exists_of_spellsAll hspells hpb
  have hright := Source.Holds.append hpbc rfl hused (Source.holds_of_lexes_nil hc hpc)
  have hall := Source.Holds.append hprefix rfl (Source.holds_of_lexes_nil ha hpa) hright
  have hlexemes := hall.2
  rw [← hcs] at hlexemes
  change Selector.lexemes text = _ at hlexemes
  simp only [parse, hlexemes, bind, Except.bind, List.nil_append]
  rw [hread _ _ [] _ (by simp only [List.length_append]; omega)]

theorem parse_of_lexes_nil (h : Selector.Lexes text.toList []) :
    parse settings mode text = .ok [] := by
  obtain ⟨ls, hls, hmap⟩ := h.exists_lexemesFrom text 0
  obtain rfl := List.map_eq_nil_iff.1 hmap
  have hlexemes : Selector.lexemes text = .ok [] := hls
  simp only [parse, hlexemes, bind, Except.bind]

/-- The parser accepts white space, and the texts that spell a list; it reads what they spell. -/
theorem parse_eq_ok_iff :
    parse settings mode text = .ok vs ↔
      (vs = [] ∧ Selector.Lexes text.toList []) ∨ SpellsList settings mode vs text.toList := by
  constructor
  · exact spells_of_parse
  · rintro (⟨rfl, h⟩ | h)
    · exact parse_of_lexes_nil h
    · exact parse_of_spellsList h

/-! ## Reading a nested selector again -/

/-- Every nested selector, at any depth, compares its name in `mode` and has the parameters that
stand with it when its own text is read. -/
inductive Reparses (settings : Settings) (mode : CaseMode) : Parameter → Prop
  | text (s : String) : Reparses settings mode (.text s)
  | number (n : Number) : Reparses settings mode (.number n)
  | call {s : Selector} {arguments : List Parameter} (hmode : s.name.mode = mode)
      (hread : s.parameters settings = .ok arguments)
      (harguments : ∀ p ∈ arguments, Reparses settings mode p) :
      Reparses settings mode (.call s arguments)

theorem reparses_plain {name : Name} (hname : name.mode = mode) :
    Reparses settings mode (plain name) :=
  .call hname rfl (by simp)

theorem reparses_listed {name : Name} {cs : List Char} (hname : name.mode = mode)
    (hcs : SpellsAll settings mode vs cs) (hvs : ∀ p ∈ vs, Reparses settings mode p) :
    Reparses settings mode (.call (listed name cs) vs) := by
  refine .call hname ?_ hvs
  have hlist : SpellsList settings mode vs (listed name cs).valueText.toList :=
    ⟨[], cs, [], by simp [listed], Selector.lexes_nil, hcs, Selector.lexes_nil⟩
  have hopen : Selector.isListText (listed name cs).valueText.toList = true := by
    rw [listed, String.toList_ofList]
    rfl
  rw [Selector.parameters, if_pos hopen]
  exact hname ▸ parse_of_spellsList hlist

theorem Spells.reparses {cs : List Char} (h : Spells settings mode vs cs) :
    ∀ p ∈ vs, Reparses settings mode p := by
  induction h with
  | @text cs s h =>
    intro p hp
    rw [List.mem_singleton.1 hp]
    exact .text s
  | @number cs n h =>
    intro p hp
    rw [List.mem_singleton.1 hp]
    exact .number n
  | plain h hn =>
    intro p hp
    rw [List.mem_singleton.1 hp]
    exact reparses_plain (Name.mode_of_make hn)
  | empty ha hn hb hc =>
    intro p hp
    rw [List.mem_singleton.1 hp]
    exact reparses_listed (Name.mode_of_make hn) (.inl ⟨rfl, hb⟩) (by simp)
  | call ha hn hb hc ih =>
    intro p hp
    rw [List.mem_singleton.1 hp]
    exact reparses_listed (Name.mode_of_make hn) (.inr hb) ih
  | cons ha hb iha ihb =>
    intro p hp
    rcases List.mem_cons.1 hp with rfl | hp
    · exact iha p (List.mem_singleton_self p)
    · exact ihb p hp

theorem reparses_of_parse (h : parse settings mode text = .ok vs) :
    ∀ p ∈ vs, Reparses settings mode p := by
  rcases spells_of_parse h with ⟨rfl, -⟩ | ⟨a, b, c, -, -, ⟨rfl, -⟩ | hb, -⟩
  · simp
  · simp
  · exact hb.reparses

/-- The selectors nested in the parameters of a selector can all be read again. -/
theorem reparses_of_parameters {s : Selector} (h : s.parameters settings = .ok vs) :
    Reparses settings s.name.mode (.call s vs) := by
  refine .call rfl h ?_
  unfold Selector.parameters at h
  split at h
  · exact reparses_of_parse h
  · cases h
    simp

end FunctionCatalog.Parameter
