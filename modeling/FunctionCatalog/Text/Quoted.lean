import FunctionCatalog.Text.Printable

/-
  FunctionCatalog: a text in quotes, as error messages show it.
  Single quotes are used unless the text holds a single quote and no double quote. The chosen quote
  and the backslash are escaped, and so is every character without a printed form.
-/

namespace FunctionCatalog.Text

/-- The last `width` hexadecimal digits of `n`, in small letters. -/
def hexDigits (width n : Nat) : List Char :=
  (List.range width).map (fun i => Nat.digitChar (n / Nat.pow 16 (width - 1 - i) % 16))

/-- One character between the quotes `mark`. -/
def quotedChar (mark c : Char) : List Char :=
  if c = mark || c = '\\' then ['\\', c]
  else if c = '\n' then ['\\', 'n']
  else if c = '\r' then ['\\', 'r']
  else if c = '\t' then ['\\', 't']
  else if isPrintable c then [c]
  else if c.toNat < 0x100 then '\\' :: 'x' :: hexDigits 2 c.toNat
  else if c.toNat < 0x10000 then '\\' :: 'u' :: hexDigits 4 c.toNat
  else '\\' :: 'U' :: hexDigits 8 c.toNat

/-- The quotation mark that suits a text. -/
def quoteMark (cs : List Char) : Char :=
  if cs.contains '\x27' && !cs.contains '\x22' then '\x22' else '\x27'

def quotedChars (cs : List Char) : List Char :=
  let mark := quoteMark cs
  mark :: cs.flatMap (quotedChar mark) ++ [mark]

def quoted (text : String) : String :=
  String.ofList (quotedChars text.toList)

end FunctionCatalog.Text
