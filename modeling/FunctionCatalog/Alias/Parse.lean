import FunctionCatalog.Alias.Basic
import FunctionCatalog.Selector.Parse

/-
  FunctionCatalog: aliases as text.
  `splitEntries` cuts a text at its top-level commas, `takeParens` finds the parenthesis that closes
  the first one, and `parseEntry` reads one entry: a name, a target and a token.
-/

namespace FunctionCatalog.Alias

/-- Puts characters in front of the first entry. -/
def onto (cs : List Char) : List (Nat × List Char) → List (Nat × List Char)
  | [] => []
  | (start, entry) :: entries => (start, cs ++ entry) :: entries

/-- The rest of the entry that started at `start`, and the entries after it, from index `i` on. Each
comes with the index of its start. Commas in text literals and in parentheses do not count. -/
def splitFrom (text : String) (start i depth : Nat) (inText : Bool) :
    List Char → Except LayoutError (List (Nat × List Char))
  | [] =>
    if inText then .error ⟨.unterminatedText, text, start⟩
    else if depth = 0 then .ok [(start, [])]
    else .error ⟨.unclosed (text.toList.drop start), text, start⟩
  | ['\\'] => (splitFrom text start (i + 1) depth inText []).map (onto ['\\'])
  | '\\' :: c :: cs =>
    if inText then (splitFrom text start (i + 2) depth true cs).map (onto ['\\', c])
    else (splitFrom text start (i + 1) depth false (c :: cs)).map (onto ['\\'])
  | c :: cs =>
    let next (depth : Nat) (inText : Bool) :=
      (splitFrom text start (i + 1) depth inText cs).map (onto [c])
    if inText then next depth (c != '"')
    else if c = '"' then next depth true
    else if c = '(' then next (depth + 1) false
    else if c = ')' then
      match depth with
      | 0 => .error ⟨.unbalancedClose, text, i⟩
      | depth + 1 => next depth false
    else if c = ',' && depth = 0 then
      (splitFrom text (i + 1) (i + 1) 0 false cs).map ((start, []) :: ·)
    else next depth false

/-- The entries of an alias text, each with the index of its start. -/
def splitEntries (text : String) : Except LayoutError (List (Nat × List Char)) :=
  splitFrom text 0 0 0 false text.toList

/-- The front of a text up to the parenthesis that brings the depth back to zero, and what follows
it. Parentheses in text literals do not count. -/
def takeParens (depth : Nat) (inText : Bool) : List Char → Option (List Char × List Char)
  | [] => none
  | ['\\'] => none
  | '\\' :: c :: cs =>
    if inText then (takeParens depth true cs).map (fun r => ('\\' :: c :: r.1, r.2))
    else (takeParens depth false (c :: cs)).map (fun r => ('\\' :: r.1, r.2))
  | c :: cs =>
    let next (depth : Nat) (inText : Bool) :=
      (takeParens depth inText cs).map (fun r => (c :: r.1, r.2))
    if inText then next depth (c != '"')
    else if c = '"' then next depth true
    else if c = '(' then next (depth + 1) false
    else if c = ')' then (if depth ≤ 1 then some ([c], cs) else next (depth - 1) false)
    else next depth false

/-- Refuses an entry that starts at `offset`, at the place where `rest` is left of it. -/
def refuse {α : Type} (offset : Nat) (entry : List Char) (fault : AliasFault) (rest : List Char) :
    Except Rejection α :=
  .error (.parse (.alias ⟨fault, String.ofList entry, offset + (entry.length - rest.length)⟩))

/-- Refuses an entry for the first character of `rest`. -/
def refuseStart {α : Type} (offset : Nat) (entry rest : List Char) : Except Rejection α :=
  refuse offset entry (.badCharacter (rest.headD ' ')) rest

/-- Whether a text ends or goes on with white space. -/
def isSetApart : List Char → Bool
  | [] => true
  | c :: _ => Text.isBlank c

/-- The name that an entry declares, and what follows it. -/
def readName (settings : Settings) (mode : CaseMode) (offset : Nat) (entry : List Char) :
    Except Rejection (Name × List Char) :=
  let front := Text.trimLeft entry
  if front = [] then refuse offset entry .emptyEntry []
  else
    let (chars, rest) := takeName front
    if chars = [] then refuseStart offset entry front
    else if isSetApart rest then
      match Name.make settings (String.ofList chars) mode with
      | .ok name => .ok (name, rest)
      | .error cause => refuse offset entry (.badName cause) front
    else refuseStart offset entry rest

/-- The characters of the target at the front of a text, a name with its parameter list if one
follows, and what follows the target. -/
def takeTarget (offset : Nat) (entry target : List Char) :
    Except Rejection (List Char × List Char) :=
  let (name, rest) := takeName target
  let parens := Text.trimLeft rest
  if name = [] then refuseStart offset entry target
  else if parens.head? = some '(' then
    match takeParens 0 false parens with
    | some (_, after) => .ok (target.take (target.length - after.length), after)
    | none =>
      .error (.parse (.layout ⟨.unclosed entry, String.ofList entry, entry.length - parens.length⟩))
  else if isSetApart rest then .ok (name, rest)
  else refuseStart offset entry rest

/-- The selector that the characters of a target are. -/
def readTarget (settings : Settings) (mode : CaseMode) (offset : Nat)
    (entry target chars : List Char) : Except Rejection Selector :=
  match Selector.parse settings mode (String.ofList chars) with
  | .ok selector => .ok selector
  | .error (.parse (.selector cause)) => refuse offset entry (.badSelector cause) target
  | .error (.name cause) => refuse offset entry (.badName cause) target
  | .error cause => .error cause

/-- The token behind a target, if there is one. Nothing may follow it. -/
def readToken (offset : Nat) (entry rest : List Char) : Except Rejection (Option String) :=
  let token := Text.trimLeft rest
  let trailing := Text.trimLeft (token.dropWhile (fun c => !Text.isBlank c))
  if token = [] then .ok none
  else if token.length = rest.length then refuseStart offset entry token
  else if trailing = [] then
    .ok (some (String.ofList (token.takeWhile (fun c => !Text.isBlank c))))
  else refuse offset entry (.trailing trailing) trailing

/-- One entry of an alias text that starts at `offset` in it: an alias name, perhaps a target, and
perhaps a token after that. -/
def parseEntry (settings : Settings) (mode : CaseMode) (offset : Nat) (entry : List Char) :
    Except Rejection Alias := do
  let (name, rest) ← readName settings mode offset entry
  let target := Text.trimLeft rest
  if target = [] then make name none none
  else
    let (chars, rest) ← takeTarget offset entry target
    let selector ← readTarget settings mode offset entry target chars
    let token ← readToken offset entry rest
    make name (some selector) token

end FunctionCatalog.Alias
