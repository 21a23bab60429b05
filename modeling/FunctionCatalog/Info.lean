import FunctionCatalog.Error

/-
  FunctionCatalog: what a catalog says about a function: its name and its canonical token.
  A token is opaque; it only must not hold white space or a separator of the text form.
-/

namespace FunctionCatalog

/-- A token is not empty and holds neither white space nor a reserved character. -/
def isToken (reserved cs : List Char) : Bool :=
  !cs.isEmpty && cs.all (fun c => !Text.isBlank c && !reserved.contains c)

/-- The separator of catalog entries is reserved in their tokens. -/
def infoReserved : List Char := [',']

structure Info where
  name : Name
  token : String
  isToken_token : isToken infoReserved token.toList = true
  handle : Handle := .loose
deriving DecidableEq

namespace Info

def make (name : Name) (token : String) : Except Rejection Info :=
  if h : isToken infoReserved token.toList = true then .ok { name, token, isToken_token := h }
  else .error (.token token)

/-- Reads a token and a name, set apart by white space. -/
def parse (settings : Settings) (mode : CaseMode) (text : String) : Except Rejection Info :=
  match Text.words text.toList with
  | [token, name] => do
    let name ← Rejection.ofName (Name.make settings (String.ofList name) mode)
    make name (String.ofList token)
  | _ => .error (.parse (.info text))

/-- The same token under another name; under a name like its own it is the info itself. -/
def withName (name : Name) (i : Info) : Info :=
  if name.alike i.name then i else { i with name, handle := .loose }

/-- An info as a numbered object. -/
def settle (i : Info) : Supply Info := do
  return { i with name := ← i.name.settle, handle := ← i.handle.settle }

/-- An info with its name in another mode. -/
def withMode (settings : Settings) (mode : CaseMode) (i : Info) : Except Rejection Info := do
  let name ← Rejection.ofName (i.name.withMode settings mode)
  return i.withName name

def same (a b : Info) : Bool :=
  a.name.same b.name && a.token == b.token

/-- The order goes by name, then by token. -/
def before (a b : Info) : Bool :=
  if a.name.same b.name then a.token < b.token else a.name.before b.name

def text (i : Info) : String :=
  i.token ++ " " ++ i.name.value

theorem mode_of_withName (name : Name) (i : Info) : (i.withName name).name.mode = name.mode := by
  unfold withName
  split
  · next h => exact (Name.mode_of_alike h).symm
  · rfl

theorem mode_of_withMode {settings : Settings} {mode : CaseMode} {i j : Info}
    (h : i.withMode settings mode = .ok j) : j.name.mode = mode := by
  unfold withMode at h
  cases hn : i.name.withMode settings mode with
  | error e => rw [hn] at h; cases h
  | ok n =>
    rw [hn] at h
    cases h
    exact (mode_of_withName n i).trans (Name.mode_of_withMode hn)

end Info

end FunctionCatalog
