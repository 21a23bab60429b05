import FunctionCatalog.Alias.Parse
import FunctionCatalog.Proofs.Selector.Closed

/-
  FunctionCatalog: the scanners of alias texts on closed texts.
  Both the scanner that cuts a text at its commas and the one that looks for a closing parenthesis
  pass over a closed text in one step and at one depth (`splitFrom_append`, `takeParens_append`).
-/

namespace FunctionCatalog.Alias

/-! ## Cutting at commas -/

section Split

variable {text : String} {start i depth : Nat} {c : Char} {rest : List Char}

theorem onto_onto (a b : List Char) (entries : List (Nat × List Char)) :
    onto a (onto b entries) = onto (a ++ b) entries := by
  cases entries with
  | nil => rfl
  | cons e es => simp [onto]

theorem onto_nil (entries : List (Nat × List Char)) : onto [] entries = entries := by
  cases entries <;> rfl

theorem map_onto_nil (x : Except LayoutError (List (Nat × List Char))) : x.map (onto []) = x := by
  cases x with
  | error e => rfl
  | ok es => exact congrArg Except.ok (onto_nil es)

/-- Characters put in front in two portions. -/
theorem map_onto (a b : List Char) (x : Except LayoutError (List (Nat × List Char))) :
    (x.map (onto b)).map (onto a) = x.map (onto (a ++ b)) := by
  cases x with
  | error e => rfl
  | ok es => exact congrArg Except.ok (onto_onto a b es)

/-- A character of an entry, other than a backslash, and what it does to the depth. -/
theorem splitFrom_cons {inText : Bool} (hb : c ≠ '\\') :
    splitFrom text start i depth inText (c :: rest) =
      let next (depth : Nat) (inText : Bool) :=
        (splitFrom text start (i + 1) depth inText rest).map (onto [c])
      if inText then next depth (c != '"')
      else if c = '"' then next depth true
      else if c = '(' then next (depth + 1) false
      else if c = ')' then
        match depth with
        | 0 => .error ⟨.unbalancedClose, text, i⟩
        | depth + 1 => next depth false
      else if c = ',' && depth = 0 then
        (splitFrom text (i + 1) (i + 1) 0 false rest).map ((start, []) :: ·)
      else next depth false := by
  rw [splitFrom.eq_def]
  split
  · next heq => cases heq
  · next heq => exact absurd (List.cons.inj heq).1 hb
  · next heq => exact absurd (List.cons.inj heq).1 hb
  · next heq => cases heq; rfl

theorem splitFrom_backslash :
    splitFrom text start i depth false ('\\' :: rest) =
      (splitFrom text start (i + 1) depth false rest).map (onto ['\\']) := by
  cases rest with
  | nil =>
    conv => lhs; rw [splitFrom]
  | cons c cs => rw [splitFrom, if_neg Bool.false_ne_true]

theorem splitFrom_plain (hc : isPlain c = true) :
    splitFrom text start i depth false (c :: rest) =
      (splitFrom text start (i + 1) depth false rest).map (onto [c]) := by
  simp only [isPlain, Bool.and_eq_true, bne_iff_ne, ne_eq] at hc
  obtain ⟨⟨⟨hq, ho⟩, hp⟩, hs⟩ := hc
  by_cases hb : c = '\\'
  · subst hb
    exact splitFrom_backslash
  · rw [splitFrom_cons hb]
    simp [hq, ho, hp, hs]

theorem splitFrom_comma :
    splitFrom text start i (depth + 1) false (',' :: rest) =
      (splitFrom text start (i + 1) (depth + 1) false rest).map (onto [',']) := by
  rw [splitFrom_cons (by decide)]
  rfl

theorem splitFrom_separator :
    splitFrom text start i 0 false (',' :: rest) =
      (splitFrom text (i + 1) (i + 1) 0 false rest).map ((start, []) :: ·) := by
  rw [splitFrom_cons (by decide)]
  rfl

theorem splitFrom_open :
    splitFrom text start i depth false ('(' :: rest) =
      (splitFrom text start (i + 1) (depth + 1) false rest).map (onto ['(']) := by
  rw [splitFrom_cons (by decide)]
  rfl

theorem splitFrom_close :
    splitFrom text start i (depth + 1) false (')' :: rest) =
      (splitFrom text start (i + 1) depth false rest).map (onto [')']) := by
  rw [splitFrom_cons (by decide)]
  rfl

theorem splitFrom_quote :
    splitFrom text start i depth false ('"' :: rest) =
      (splitFrom text start (i + 1) depth true rest).map (onto ['"']) := by
  rw [splitFrom_cons (by decide)]
  rfl

theorem splitFrom_quoted {q : List Char} (hq : Quoted q) :
    splitFrom text start i depth true (q ++ rest) =
      (splitFrom text start (i + q.length) depth false rest).map (onto q) := by
  induction hq generalizing i with
  | close =>
    rw [List.singleton_append, splitFrom_cons (by decide)]
    rfl
  | @escaped cs c _ ih =>
    have hlen : i + 2 + cs.length = i + ('\\' :: c :: cs).length := by
      simp only [List.length_cons]; omega
    rw [List.cons_append, List.cons_append, splitFrom, if_pos rfl, ih, map_onto, hlen]
    rfl
  | @plain c cs hq hb _ ih =>
    have hlen : i + 1 + cs.length = i + (c :: cs).length := by
      simp only [List.length_cons]; omega
    have hin : (c != '"') = true := by simpa using hq
    rw [List.cons_append, splitFrom_cons hb]
    dsimp only
    rw [if_pos rfl, hin, ih, map_onto, hlen]
    rfl

/-- A closed text goes to the entry it stands in as a whole. Commas in it need an open
parenthesis around it. -/
theorem splitFrom_append {commas : Bool} {cs : List Char} (h : Closed commas cs)
    (hdepth : commas = true → 0 < depth) (rest : List Char) :
    splitFrom text start i depth false (cs ++ rest) =
      (splitFrom text start (i + cs.length) depth false rest).map (onto cs) := by
  induction h generalizing i depth rest with
  | nil => exact (map_onto_nil _).symm
  | @plain commas c cs hc _ ih =>
    have hlen : i + 1 + cs.length = i + (c :: cs).length := by
      simp only [List.length_cons]; omega
    rw [List.cons_append, splitFrom_plain hc, ih hdepth, map_onto, hlen]
    rfl
  | @comma cs _ ih =>
    obtain ⟨d, rfl⟩ := Nat.exists_eq_add_of_le' (hdepth rfl)
    have hlen : i + 1 + cs.length = i + (',' :: cs).length := by
      simp only [List.length_cons]; omega
    rw [List.cons_append, splitFrom_comma, ih hdepth, map_onto, hlen]
    rfl
  | @literal commas q cs hq _ ih =>
    have hlen : i + 1 + q.length + cs.length = i + ('"' :: (q ++ cs)).length := by
      simp only [List.length_cons, List.length_append]; omega
    rw [List.cons_append, List.append_assoc, splitFrom_quote, splitFrom_quoted hq, ih hdepth,
      map_onto, map_onto, hlen]
    rfl
  | @list commas a cs _ _ iha ih =>
    have hlen : i + 1 + a.length + 1 + cs.length = i + ('(' :: (a ++ ')' :: cs)).length := by
      simp only [List.length_cons, List.length_append]; omega
    rw [List.cons_append, List.append_assoc, List.cons_append, splitFrom_open,
      iha (fun _ => Nat.succ_pos depth), splitFrom_close, ih hdepth, map_onto, map_onto, map_onto,
      hlen]
    simp

end Split

/-! ## Looking for the closing parenthesis -/

section Parens

variable {depth : Nat} {c : Char} {rest : List Char}

/-- Puts characters in front of what was taken. -/
def prepend (cs : List Char) (r : List Char × List Char) : List Char × List Char :=
  (cs ++ r.1, r.2)

theorem map_prepend_nil (x : Option (List Char × List Char)) : x.map (prepend []) = x := by
  cases x <;> rfl

theorem map_prepend (a b : List Char) (x : Option (List Char × List Char)) :
    (x.map (prepend b)).map (prepend a) = x.map (prepend (a ++ b)) := by
  cases x <;> simp [prepend]

theorem takeParens_cons {inText : Bool} (hb : c ≠ '\\') :
    takeParens depth inText (c :: rest) =
      let next (depth : Nat) (inText : Bool) := (takeParens depth inText rest).map (prepend [c])
      if inText then next depth (c != '"')
      else if c = '"' then next depth true
      else if c = '(' then next (depth + 1) false
      else if c = ')' then (if depth ≤ 1 then some ([c], rest) else next (depth - 1) false)
      else next depth false := by
  rw [takeParens]
  · rfl
  · intro h; exact absurd h hb
  · intro d ds h; exact absurd h hb

theorem takeParens_backslash :
    takeParens depth false ('\\' :: rest) = (takeParens depth false rest).map (prepend ['\\']) := by
  cases rest with
  | nil => simp [takeParens]
  | cons c cs =>
    rw [takeParens, if_neg Bool.false_ne_true]
    rfl

theorem takeParens_plain (hc : isPlain c = true) :
    takeParens depth false (c :: rest) = (takeParens depth false rest).map (prepend [c]) := by
  simp only [isPlain, Bool.and_eq_true, bne_iff_ne, ne_eq] at hc
  obtain ⟨⟨⟨hq, ho⟩, hp⟩, -⟩ := hc
  by_cases hb : c = '\\'
  · subst hb
    exact takeParens_backslash
  · rw [takeParens_cons hb]
    simp [hq, ho, hp]

theorem takeParens_comma :
    takeParens depth false (',' :: rest) = (takeParens depth false rest).map (prepend [',']) := by
  rw [takeParens_cons (by decide)]
  rfl

theorem takeParens_open :
    takeParens depth false ('(' :: rest) =
      (takeParens (depth + 1) false rest).map (prepend ['(']) := by
  rw [takeParens_cons (by decide)]
  rfl

theorem takeParens_close :
    takeParens (depth + 2) false (')' :: rest) =
      (takeParens (depth + 1) false rest).map (prepend [')']) := by
  rw [takeParens_cons (by decide)]
  simp

theorem takeParens_end : takeParens 1 false (')' :: rest) = some ([')'], rest) := by
  rw [takeParens_cons (by decide)]
  rfl

theorem takeParens_quote :
    takeParens depth false ('"' :: rest) = (takeParens depth true rest).map (prepend ['"']) := by
  rw [takeParens_cons (by decide)]
  rfl

theorem takeParens_quoted {q : List Char} (hq : Quoted q) :
    takeParens depth true (q ++ rest) = (takeParens depth false rest).map (prepend q) := by
  induction hq with
  | close =>
    rw [List.singleton_append, takeParens_cons (by decide)]
    rfl
  | @escaped cs c _ ih =>
    rw [List.cons_append, List.cons_append, takeParens, if_pos rfl, ih]
    exact map_prepend ['\\', c] cs _
  | @plain c cs hq hb _ ih =>
    have hin : (c != '"') = true := by simpa using hq
    rw [List.cons_append, takeParens_cons hb]
    dsimp only
    rw [if_pos rfl, hin, ih, map_prepend]
    rfl

/-- With a parenthesis open, the one that closes it is not inside of a closed text. -/
theorem takeParens_append {commas : Bool} {cs : List Char} (h : Closed commas cs)
    (rest : List Char) :
    takeParens (depth + 1) false (cs ++ rest) =
      (takeParens (depth + 1) false rest).map (prepend cs) := by
  induction h generalizing depth rest with
  | nil => exact (map_prepend_nil _).symm
  | plain hc _ ih => rw [List.cons_append, takeParens_plain hc, ih, map_prepend]; rfl
  | comma _ ih => rw [List.cons_append, takeParens_comma, ih, map_prepend]; rfl
  | literal hq _ ih =>
    rw [List.cons_append, List.append_assoc, takeParens_quote, takeParens_quoted hq, ih,
      map_prepend, map_prepend]
    rfl
  | list _ _ iha ih =>
    rw [List.cons_append, List.append_assoc, List.cons_append, takeParens_open, iha,
      takeParens_close, ih, map_prepend, map_prepend, map_prepend]
    simp

/-- The parenthesis that closes a list is found behind what stands in the list. -/
theorem takeParens_list {cs : List Char} (h : Closed true cs) (rest : List Char) :
    takeParens 0 false ('(' :: (cs ++ ')' :: rest)) = some ('(' :: (cs ++ [')']), rest) := by
  rw [takeParens_open, takeParens_append h, takeParens_end]
  simp [prepend]

end Parens

end FunctionCatalog.Alias
