import FunctionCatalog.Number.Literal
import FunctionCatalog.Settings

/-
  FunctionCatalog: defaults from environment variables.
  A variable is named for what it sets, behind the name of the library; letter case does not matter.
-/

namespace FunctionCatalog.Settings
open FunctionCatalog.Text

/-- Whether there can be such a variable: its name has no equals sign, and neither its name nor its
value the null character. -/
def isVariable (v : String × String) : Bool :=
  !v.1.toList.contains '=' && !v.1.toList.contains '\x00' && !v.2.toList.contains '\x00'

/-- The value of a variable, the last one if its name comes in several spellings. -/
def valueOf? (vars : List (String × String)) (name : String) : Option String :=
  (vars.reverse.find? (fun v => lower v.1 == name)).map (·.2)

/-- Cuts a minus sign off. -/
def takeMinus : List Char → List Char × List Char
  | '-' :: cs => (['-'], cs)
  | cs => ([], cs)

/-- A whole number in its shortest form: no sign but a minus, and no leading zeros. It may be as
long as a number has digits, with the sign. -/
def shortInt? (cs : List Char) : Option Int :=
  let (minus, digits) := takeMinus cs
  let short := match digits with
    | [] => false
    | '0' :: ds => ds.isEmpty
    | _ => true
  if short && digits.all Char.isDigit && cs.length ≤ Number.digitLimit then
    let i : Int := Text.ofDigits (digits.map (fun c => c.toNat - 48))
    some (if minus.isEmpty then i else -i)
  else none

/-- Drops a plus sign; no other sign may follow it. -/
def dropPlus? : List Char → Option (List Char)
  | '+' :: '-' :: _ => none
  | '+' :: cs => some cs
  | cs => some cs

/-- Starts a number, once leading zeros are gone. -/
def isLead (c : Char) : Bool :=
  ('1' ≤ c && c ≤ '9') || c == '-'

/-- Drops leading zeros and the underscores among them. One character stays ahead of a point, and at
the end. -/
def dropZeros? (cs : List Char) : Option (List Char) :=
  match cs with
  | '0' :: ds =>
    let isZero (c : Char) : Bool := c == '0' || c == '_'
    let last := (ds.takeWhile isZero).getLast?.getD '0'
    match ds.dropWhile isZero with
    | [] => some [last]
    | c :: rest =>
      if isLead c then some (c :: rest)
      else if c = '.' then some (last :: '.' :: rest)
      else none
  | c :: _ => if isLead c then some cs else none
  | [] => none

/-- Cuts a fraction of zeros off. -/
def dropFraction (cs : List Char) : List Char :=
  match cs.dropWhile (· != '.') with
  | '.' :: zeros =>
    if !zeros.isEmpty && zeros.all (· == '0') then cs.takeWhile (· != '.') else cs
  | _ => cs

/-- Drops underscores, which stand by themselves between other characters. -/
def dropUnderscores? (cs : List Char) : Option (List Char) :=
  let pieces := splitWhere (· == '_') cs
  if pieces.length = 1 || pieces.all (fun piece => !piece.isEmpty) then some pieces.flatten
  else none

/-- Reads a limit: a whole number, perhaps with a sign, leading zeros, underscores or a fraction of
zeros. A minus sign stands ahead of the zeros that are dropped; one behind them is kept too. -/
def readLimit? (text : String) : Option Int :=
  let cs := Number.strip text.toList
  match shortInt? cs with
  | some i => some i
  | none => do
    let (minus, cs) := takeMinus (← dropPlus? cs)
    let cs ← dropZeros? cs
    shortInt? (minus ++ (← dropUnderscores? (dropFraction cs)))

/-- The settings that the variables of one library give; what no variable sets has its default. None
when a variable has a value of the wrong form. -/
def ofEnvironment (library : String) (vars : List (String × String)) : Option Settings := do
  let default : Settings := {}
  let get (name : String) := valueOf? vars (lower (library ++ "_" ++ name))
  let mode ← match get "default_case_sensitivity" with
    | none => some default.defaultMode
    | some text => CaseMode.ofText? text
  let limit ← match get "name_max_length" with
    | none => some default.nameLimit
    | some text => readLimit? text
  some ⟨mode, limit, (get "alias_token_prefix").getD default.tokenPrefix⟩

end FunctionCatalog.Settings
