import FunctionCatalog.Proofs.Alias.Places

/-
  FunctionCatalog: the scanners of alias texts agree.
  A text is cut at its commas by one scanner, the end of a list is found by another one, and the
  list is read by the parser of its lexemes. The second never fails on what the first has cut, and
  it stops at the parenthesis at which the parser does (`takeParens_of_listEnds`), so nothing is
  left over behind the list (`scanners_agree`).
-/

namespace FunctionCatalog

namespace Parameter

variable {settings : Settings} {mode : CaseMode} {text : String} {vs : List Parameter} {stop : Nat}
  {rest : List PlacedLexeme}

/-- The list that a text starts with is read as these parameters; it is closed at `stop`, and these
lexemes follow it. -/
def ListEnds (settings : Settings) (mode : CaseMode) (text : String) (vs : List Parameter)
    (stop : Nat) (rest : List PlacedLexeme) : Prop :=
  ∃ start ls, Selector.lexemes text = .ok (⟨.openParen, start⟩ :: ls) ∧
    parseList ⟨settings, mode, text⟩ (3 * ls.length + 3) start ls = .ok (vs, stop, rest)

/-- A text is read as the list that it starts with if nothing follows that. -/
theorem parse_of_listEnds (h : ListEnds settings mode text vs stop []) :
    parse settings mode text = .ok vs := by
  obtain ⟨start, ls, hlexemes, hlist⟩ := h
  simp only [parse, hlexemes, hlist, bind, Except.bind]

/-- The list that a text starts with has its two parentheses, and closes what it opens. -/
theorem ListEnds.exists_sides (h : ListEnds settings mode text vs stop rest) :
    ∃ a b c, text.toList = a ++ '(' :: (b ++ ')' :: c) ∧ Text.allBlank a = true ∧ Closed true b ∧
      stop = a.length + 1 + b.length ∧ Selector.Lexes c (rest.map (·.lexeme)) := by
  obtain ⟨start, ls, hlexemes, hlist⟩ := h
  obtain ⟨used, rfl, hused⟩ := (sound ⟨settings, mode, text⟩ _).2.1 _ _ _ _ _ hlist
  have hholds : Source.Holds ⟨settings, mode, text⟩ 0 text.toList
      ([] ++ ⟨.openParen, start⟩ :: (used ++ ⟨.closeParen, stop⟩ :: rest)) :=
    ⟨List.prefix_refl _, hlexemes⟩
  obtain ⟨a, tail, htext, rfl, ha, htail⟩ := hholds.exists_sides (p := '(') rfl
  obtain ⟨b, c, rfl, rfl, hb, hc⟩ := htail.exists_sides (p := ')') rfl
  refine ⟨a, b, c, htext, Selector.lexes_nil_iff.1 ha.lexes, (hused _ _ hb).closed, ?_, hc.lexes⟩
  rw [Nat.zero_add]

end Parameter

namespace Alias

open Parameter (ListEnds)

variable {settings : Settings} {mode : CaseMode} {text : String} {vs : List Parameter} {stop : Nat}
  {rest : List PlacedLexeme}

/-- On any text the two ends of a list are one: the scanner stops at the parenthesis at which the
parser does. -/
theorem takeParens_of_listEnds (h : ListEnds settings mode text vs stop rest) :
    ∃ ws list after, text.toList = ws ++ (list ++ after) ∧
      takeParens 0 false (Text.trimLeft text.toList) = some (list, after) ∧
      (ws ++ list).length = stop + 1 ∧ Selector.Lexes after (rest.map (·.lexeme)) := by
  obtain ⟨a, b, c, htext, ha, hb, rfl, hc⟩ := h.exists_sides
  have htrim : Text.trimLeft text.toList = '(' :: (b ++ ')' :: c) := by
    rw [htext]
    exact Text.trimLeft_append ha (by intro d hd; cases hd; decide)
  refine ⟨a, '(' :: (b ++ [')']), c, ?_, ?_, ?_, hc⟩
  · rw [htext]
    simp
  · rw [htrim, takeParens_list hb]
  · simp only [List.length_append, List.length_cons, List.length_nil]
    omega

/-- Behind a list that is all of a text the parser finds nothing. -/
theorem eq_nil_of_listEnds {ws b : List Char} (hws : Text.allBlank ws = true) (hb : Closed true b)
    (h : ListEnds settings mode (String.ofList (ws ++ '(' :: (b ++ [')']))) vs stop rest) :
    rest = [] ∧ stop + 1 = (ws ++ '(' :: (b ++ [')'])).length := by
  obtain ⟨ws', list, after, htext, htake, hlength, hrest⟩ := takeParens_of_listEnds h
  rw [String.toList_ofList] at htext htake
  have htrim : Text.trimLeft (ws ++ '(' :: (b ++ [')'])) = '(' :: (b ++ ')' :: []) :=
    Text.trimLeft_append hws (by intro c hc; cases hc; decide)
  rw [htrim, takeParens_list hb] at htake
  obtain ⟨rfl, rfl⟩ := Prod.mk.inj (Option.some.inj htake)
  rw [List.append_nil] at htext
  refine ⟨?_, by rw [← hlength, htext]⟩
  obtain ⟨ps, hps, hmap⟩ := hrest
  cases hps.symm.trans Selector.lexemesFrom_nil
  exact List.map_eq_nil_iff.1 hmap.symm

/-- Reading an entry comes to a parenthesis behind the name of its target, so that the one that
closes it is looked for. -/
structure LooksForClose (settings : Settings) (mode : CaseMode) (offset : Nat)
    (entry target : List Char) : Prop where
  behindName : ∃ name rest, readName settings mode offset entry = .ok (name, rest) ∧
    Text.trimLeft rest = target
  named : (takeName target).1 ≠ []
  opens : (Text.trimLeft (takeName target).2).head? = some '('

/-- The closing parenthesis is found, and the parser of the list ends there. -/
structure ClosesTogether (settings : Settings) (mode : CaseMode) (offset : Nat)
    (entry target ws list after : List Char) : Prop where
  split : (takeName target).2 = ws ++ (list ++ after)
  allBlank : Text.allBlank ws = true
  closes : list.getLast? = some ')'
  takeParens_eq : takeParens 0 false (Text.trimLeft (takeName target).2) = some (list, after)
  takeTarget_eq : takeTarget offset entry target = .ok ((takeName target).1 ++ (ws ++ list), after)
  takeName_slice : takeName ((takeName target).1 ++ (ws ++ list)) =
    ((takeName target).1, ws ++ list)
  /-- Where the list in the parameter text of the slice is read, it is the whole of it. -/
  nothing_follows : ∀ vs stop rest,
    ListEnds settings mode (String.ofList (ws ++ list)) vs stop rest →
      rest = [] ∧ stop + 1 = (ws ++ list).length ∧
        Parameter.parse settings mode (String.ofList (ws ++ list)) = .ok vs

theorem exists_closesTogether {offset : Nat} {entry target : List Char}
    (hclosed : Closed false entry) (h : LooksForClose settings mode offset entry target) :
    ∃ ws list after, ClosesTogether settings mode offset entry target ws list after := by
  obtain ⟨⟨name, rest, hname, rfl⟩, hnamed, hopens⟩ := h
  obtain ⟨htarget, -⟩ := closed_of_readName hclosed hname
  generalize Text.trimLeft rest = target at htarget hnamed hopens ⊢
  obtain ⟨b, after, hparens, hb, htake⟩ := exists_takeParens htarget hopens
  obtain ⟨ws, hws, hsplit⟩ := Text.exists_trimLeft (takeName target).2
  rw [hparens] at hsplit
  have hn := isName_takeName hnamed
  have hbefore : TargetBefore after ((takeName target).1 ++ (ws ++ '(' :: (b ++ [')']))) :=
    .list hn hws hb
  have hlist : Selector.isListText (ws ++ '(' :: (b ++ [')'])) = true := by
    rw [Selector.isListText, Text.trimLeft_append hws (by intro c hc; cases hc; decide)]
    rfl
  refine ⟨ws, '(' :: (b ++ [')']), after, ?_, hws, ?_, htake, ?_, ?_, fun vs stop rest hends => ?_⟩
  · rw [hsplit]
    simp
  · rw [← List.cons_append, List.getLast?_append]
    rfl
  · have hall : target = (takeName target).1 ++ (ws ++ '(' :: (b ++ [')'])) ++ after := by
      conv => lhs; rw [← takeName_append target, hsplit]
      simp
    conv => lhs; rw [hall]
    exact takeTarget_of_before hbefore
  · exact takeName_of_isName hn
      (Selector.not_isNamePart_of_isSeparated (Selector.isSeparated_of_isListText hlist))
  · obtain ⟨rfl, hstop⟩ := eq_nil_of_listEnds hws hb hends
    exact ⟨rfl, hstop, Parameter.parse_of_listEnds hends⟩

/-- A text that is cut into pieces is these pieces with commas between them, each at its place, and
a comma in a piece is in a literal or in parentheses. In a piece that the reader comes to a
parenthesis of, the one that closes it is found, and there the parser of the list ends as well. A
text is not cut just if a parenthesis in it closes nothing, or a literal or a parenthesis is left
open. -/
theorem scanners_agree (settings : Settings) (mode : CaseMode) (text : String) :
    (∀ pieces, splitEntries text = .ok pieces →
      [','].intercalate (pieces.map (·.2)) = text.toList ∧
      pieces = placed 0 (pieces.map (·.2)) ∧
      ∀ p ∈ pieces,
        (∃ before after, text.toList = before ++ (p.2 ++ after) ∧ p.1 = before.length ∧
          IsFront before) ∧
        (∀ a b, p.2 = a ++ ',' :: b →
          ∃ depth inText, Opens depth inText a ∧ (0 < depth ∨ inText = true)) ∧
        (∀ target, LooksForClose settings mode p.1 p.2 target →
          ∃ ws list after, ClosesTogether settings mode p.1 p.2 target ws list after) ∧
        ∀ e, parseEntry settings mode p.1 p.2 ≠ .error (.parse (.layout e))) ∧
    ((∃ e, splitEntries text = .error e) ↔
      Stray text.toList ∨ (∃ depth, Opens depth true text.toList) ∨
        ∃ depth, Opens (depth + 1) false text.toList) := by
  refine ⟨fun pieces hsplit => ?_, splitEntries_error_iff⟩
  obtain ⟨⟨-, hclosed, hjoined⟩, hplaced⟩ := placed_of_splitEntries hsplit
  refine ⟨hjoined, hplaced, fun p hp => ?_⟩
  have hpiece : Closed false p.2 := hclosed p.2 (List.mem_map_of_mem hp)
  refine ⟨exists_sides_of_splitEntries hsplit hp, fun a b hsides => ?_,
    fun target => exists_closesTogether hpiece, fun e herror => ?_⟩
  · rw [hsides] at hpiece
    exact exists_opens_of_comma hpiece
  · obtain ⟨fault, front, rest, -, heq, -⟩ := refusedWithin_of_parseEntry hpiece herror _ rfl
    cases heq

/-- In `a f(b, ")"), c` the parenthesis in the literal closes nothing, for none of the scanners. -/
theorem scanners_agree_literal :
    splitEntries "a f(b, \")\"), c" =
        .ok [(0, "a f(b, \")\")".toList), (12, " c".toList)] ∧
      LooksForClose {} .sensitive 0 "a f(b, \")\")".toList "f(b, \")\")".toList ∧
      ∃ ws list after, ClosesTogether {} .sensitive 0 "a f(b, \")\")".toList
        "f(b, \")\")".toList ws list after := by
  have hsplit : splitEntries "a f(b, \")\"), c" =
      .ok [(0, "a f(b, \")\")".toList), (12, " c".toList)] := by
    decide +kernel
  have hlooks : LooksForClose {} .sensitive 0 "a f(b, \")\")".toList "f(b, \")\")".toList := by
    refine ⟨⟨{ value := "a", mode := .sensitive, isName_value := by decide },
      " f(b, \")\")".toList, ?_, ?_⟩, ?_, ?_⟩
    · decide +kernel
    · decide +kernel
    · decide +kernel
    · decide +kernel
  obtain ⟨hcut, -⟩ := scanners_agree {} .sensitive "a f(b, \")\"), c"
  obtain ⟨-, -, hpieces⟩ := hcut _ hsplit
  obtain ⟨-, -, hcloses, -⟩ := hpieces _ List.mem_cons_self
  exact ⟨hsplit, hlooks, hcloses _ hlooks⟩

end Alias

end FunctionCatalog
