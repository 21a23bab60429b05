import FunctionCatalog.Number.Numeral
import FunctionCatalog.Text.Quoted

/-
  FunctionCatalog: the lexemes of parameter lists, and the escapes of text literals.
-/

namespace FunctionCatalog

inductive Lexeme where
  | openParen
  | closeParen
  | comma
  | text (s : String)
  | number (n : Number)
  | name (s : String)
deriving DecidableEq

/-- A lexeme and the index of its first character. -/
structure PlacedLexeme where
  lexeme : Lexeme
  position : Nat
deriving DecidableEq

/-- The written form of a number. -/
def Number.text : Number → String
  | .int i => Number.intText i
  | .double x => x.text

/-- A lexeme as error messages show it: numbers as they are, all else in quotes. -/
def Lexeme.shown : Lexeme → String
  | .openParen => Text.quoted "("
  | .closeParen => Text.quoted ")"
  | .comma => Text.quoted ","
  | .text s => Text.quoted s
  | .number n => n.text
  | .name s => Text.quoted s

namespace TextLiteral

/-- The character that an escape stands for, by the character after the backslash. -/
def unescape? (c : Char) : Option Char :=
  if c = '"' then some '"'
  else if c = '\x27' then some '\x27'
  else if c = '\\' then some '\\'
  else if c = 'n' then some '\n'
  else if c = 'r' then some '\r'
  else if c = 't' then some '\t'
  else if c = '0' then some '\x00'
  else none

/-- A character between the quotes of a literal. The single quote needs no escape. -/
def escape (c : Char) : List Char :=
  if c = '"' then ['\\', '"']
  else if c = '\\' then ['\\', '\\']
  else if c = '\n' then ['\\', 'n']
  else if c = '\r' then ['\\', 'r']
  else if c = '\t' then ['\\', 't']
  else if c = '\x00' then ['\\', '0']
  else [c]

def write (text : String) : String :=
  String.ofList ('"' :: text.toList.flatMap escape ++ ['"'])

inductive Fault where
  | unterminated
  | badEscape (c : Char) (position : Nat)
deriving DecidableEq

/-- Reads a literal from just past its opening quote, at index `i`: its characters and what follows
the closing quote. -/
def read (i : Nat) : List Char → Except Fault (List Char × List Char)
  | [] => .error .unterminated
  | '"' :: cs => .ok ([], cs)
  | ['\\'] => .error .unterminated
  | '\\' :: c :: cs =>
    match unescape? c with
    | none => .error (.badEscape c i)
    | some d => (read (i + 2) cs).map (fun r => (d :: r.1, r.2))
  | c :: cs => (read (i + 1) cs).map (fun r => (c :: r.1, r.2))

theorem length_read_lt {i : Nat} {cs value rest : List Char} (h : read i cs = .ok (value, rest)) :
    rest.length < cs.length := by
  fun_induction read i cs generalizing value rest with
  | case1 => cases h
  | case2 => cases h; simp
  | case3 => cases h
  | case4 => cases h
  | case5 i c cs d _ ih =>
    cases hr : read (i + 2) cs with
    | error e => rw [hr] at h; cases h
    | ok r =>
      rw [hr] at h
      have := ih hr
      cases h
      simp only [List.length_cons]
      omega
  | case6 i c cs _ _ _ ih =>
    cases hr : read (i + 1) cs with
    | error e => rw [hr] at h; cases h
    | ok r =>
      rw [hr] at h
      have := ih hr
      cases h
      simp only [List.length_cons]
      omega

end TextLiteral

end FunctionCatalog
