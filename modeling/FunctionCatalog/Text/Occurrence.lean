/-
  FunctionCatalog: texts within texts.
  The empty text occurs everywhere: before every character and at the end.
-/

namespace FunctionCatalog.Text

/-- Whether `part` occurs in a text. -/
def occursIn (part : List Char) : List Char → Bool
  | [] => part.isEmpty
  | c :: cs => part.isPrefixOf (c :: cs) || occursIn part cs

/-- A text with `new` for every occurrence of `old`, from left to right; they do not overlap. -/
def replaceAll (old new : List Char) (cs : List Char) : List Char :=
  go 0 cs
where
  /-- Goes on after `skip` further characters of an occurrence. -/
  go (skip : Nat) : List Char → List Char
    | [] => if old.isEmpty then new else []
    | c :: cs =>
      if 0 < skip then go (skip - 1) cs
      else if old.isEmpty then new ++ c :: go 0 cs
      else if old.isPrefixOf (c :: cs) then new ++ go (old.length - 1) cs
      else c :: go 0 cs

end FunctionCatalog.Text
