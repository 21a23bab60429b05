import FunctionCatalog.Text.LowerCase

/-
  FunctionCatalog: how names compare, and the defaults that can be set.
-/

namespace FunctionCatalog

/-- Whether letter case distinguishes names. -/
inductive CaseMode where
  | sensitive
  | insensitive
deriving DecidableEq, Repr

namespace CaseMode

/-- The form of a text in which a mode compares it. -/
def fold : CaseMode → String → String
  | .sensitive, text => text
  | .insensitive, text => Text.lower text

/-- Two modes together are insensitive as soon as one of them is. -/
def join : CaseMode → CaseMode → CaseMode
  | .sensitive, .sensitive => .sensitive
  | _, _ => .insensitive

def text : CaseMode → String
  | .sensitive => "sensitive"
  | .insensitive => "insensitive"

def ofText? (text : String) : Option CaseMode :=
  if text = "sensitive" then some .sensitive
  else if text = "insensitive" then some .insensitive
  else none

theorem join_comm (a b : CaseMode) : a.join b = b.join a := by
  cases a <;> cases b <;> rfl

theorem join_self (a : CaseMode) : a.join a = a := by
  cases a <;> rfl

theorem ofText?_text (m : CaseMode) : ofText? m.text = some m := by
  cases m <;> rfl

end CaseMode

structure Settings where
  /-- The mode of names that are given without one. -/
  defaultMode : CaseMode := .sensitive
  /-- The greatest length of a name. -/
  nameLimit : Int := 255
  /-- What precedes an alias in the token made up for it. -/
  tokenPrefix : String := "urn:alias:"
deriving DecidableEq

end FunctionCatalog
