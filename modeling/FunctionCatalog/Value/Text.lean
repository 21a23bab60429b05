import FunctionCatalog.Number.Decimal
import FunctionCatalog.Text.Quoted
import FunctionCatalog.Value.Basic

/-
  FunctionCatalog: values in print.
  `Value.print` is what is shown of a value by itself, `Value.display` what is shown of it inside a
  list or an error message, where a text is quoted and an object lists its fields. A set of aliases
  that holds a function has no text, nor has a whole number of too many digits, nor has anything
  that would have to show one of these.
-/

namespace FunctionCatalog

def CaseMode.display (m : CaseMode) : String :=
  "<CaseSensitivity." ++ m.word ++ ": " ++ Text.quoted m.text ++ ">"

def AliasClaim.display (c : AliasClaim) : String :=
  "<AliasClaim." ++ c.word ++ ": " ++ Text.quoted c.text ++ ">"

def Name.display (n : Name) : String :=
  "Name(value=" ++ Text.quoted n.value ++ ", case_sensitivity=" ++ n.mode.display ++ ")"

def Selector.display (s : Selector) : String :=
  "Selector(name=" ++ s.name.display ++ ", value_text=" ++ Text.quoted s.valueText ++ ")"

/-- An info whose token is shown in some form. -/
def Info.displayWith (name : Name) (token : String) : String :=
  "Info(name=" ++ name.display ++ ", token=" ++ token ++ ")"

/-- An alias whose token is shown in some form. -/
def Alias.displayWith (name : Name) (target : Option Selector) (token : String) : String :=
  let target := match target with
    | none => "None"
    | some s => s.display
  "Alias(name=" ++ name.display ++ ", selector=" ++ target ++ ", token=" ++ token ++ ")"

/-- The word for an operation. -/
def Operation.word : Operation → String
  | .abs => "abs"
  | .max => "max"
  | .min => "min"
  | .upper => "upper"
  | .lower => "lower"
  | .total => "total"
  | .concat => "concat"
  | .wrap => "wrap"
  | .roundTo => "round-to"
  | .repeatText => "repeat"
  | .echo => "echo"

def Operation.display (o : Operation) : String :=
  match o with
  | .abs | .max | .min => "<built-in function " ++ o.word ++ ">"
  | .upper | .lower => "<method " ++ Text.quoted o.word ++ " of 'str' objects>"
  | _ => "<function " ++ o.word ++ ">"

/-- Why a value cannot be shown. -/
inductive PrintFault where
  | noText
  | digitLimit
deriving DecidableEq, Repr

def boolText (b : Bool) : String :=
  if b then "True" else "False"

/-- The displays of some values with commas between them. -/
def commaList (texts : List String) : String :=
  ", ".intercalate texts

/-- A tuple of one has a comma too. -/
def tupleText (texts : List String) : String :=
  match texts with
  | [one] => "(" ++ one ++ ",)"
  | _ => "(" ++ commaList texts ++ ")"

/-- A whole number that has not too many digits. -/
def intPrint (i : Int) : Except PrintFault String :=
  if Number.digitLimit < (Number.natChars i.natAbs).length then .error .digitLimit
  else .ok (Number.intText i)

def recordText (keys values : List String) : String :=
  "\x7b" ++ commaList ((keys.zip values).map (fun f => f.1 ++ ": " ++ f.2)) ++ "\x7d"

mutual

def Value.display : Value → Except PrintFault String
  | .null => .ok "None"
  | .bool b => .ok (boolText b)
  | .int i => intPrint i
  | .double x => .ok x.text
  | .text s => .ok (Text.quoted s)
  | .list vs => do return "[" ++ commaList (← Value.displayAll vs) ++ "]"
  | .tuple vs => do return tupleText (← Value.displayAll vs)
  | .record ks vs => do return recordText (← Value.displayAll ks) (← Value.displayAll vs)
  | .moment m => .ok m.display
  | .mode m => .ok m.display
  | .claim c => .ok c.display
  | .name n => .ok n.display
  | .item i => Item.display i
  | .set kind m es _ => do
    let text := kind.join (← Item.texts kind es)
    return kind.text ++ "(" ++ Text.quoted text ++ ", " ++ m.text ++ ")"
  | .operation o => .ok o.display
  | .provider p => .ok ("<" ++ p.kind.text ++ ">")
  | .outcome call => .ok ("<outcome " ++ Number.natText call ++ ">")

def Value.displayAll : List Value → Except PrintFault (List String)
  | [] => .ok []
  | v :: vs => do return (← Value.display v) :: (← Value.displayAll vs)

def Item.display : Item → Except PrintFault String
  | .info i => .ok (Info.displayWith i.name (Text.quoted i.token))
  | .infoWith n t _ => do return Info.displayWith n (← Value.display t)
  | .selector s => .ok s.display
  | .alias a =>
    .ok (Alias.displayWith a.name a.target (match a.token with
      | none => "None"
      | some t => Text.quoted t))
  | .aliasWith n s t _ => do return Alias.displayWith n (some s) (← Value.display t)
  | .function f => NamedFunction.display f

def NamedFunction.display : NamedFunction → Except PrintFault String
  | ⟨n, o, vs, _⟩ => do
    return "NamedFunction(name=" ++ n.display ++ ", implementation=" ++ o.display ++
      ", parameters=" ++ tupleText (← Value.displayAll vs) ++ ")"

/-- A value by itself. -/
def Value.print : Value → Except PrintFault String
  | .text s => .ok s
  | .mode m => .ok ("CaseSensitivity." ++ m.word)
  | .claim c => .ok ("AliasClaim." ++ c.word)
  | .name n => .ok n.value
  | .item i => Item.print i
  | .set kind _ es _ => do return kind.join (← Item.texts kind es)
  | .provider p => .ok p.text
  | .null => .ok "None"
  | .bool b => .ok (boolText b)
  | .int i => intPrint i
  | .double x => .ok x.text
  | .list vs => do return "[" ++ commaList (← Value.displayAll vs) ++ "]"
  | .tuple vs => do return tupleText (← Value.displayAll vs)
  | .record ks vs => do return recordText (← Value.displayAll ks) (← Value.displayAll vs)
  | .moment m => .ok m.display
  | .operation o => .ok o.display
  | .outcome call => .ok ("<outcome " ++ Number.natText call ++ ">")

/-- An item by itself. -/
def Item.print : Item → Except PrintFault String
  | .info i => .ok i.text
  | .infoWith n t _ => do return (← Value.print t) ++ " " ++ n.value
  | .selector s => .ok s.text
  | .alias a => .ok a.text
  | .aliasWith n s t _ => do return n.value ++ " " ++ s.text ++ " " ++ (← Value.print t)
  | .function f => NamedFunction.print f

/-- A function shows its name and, in parentheses, the values bound to it, texts in quotes. -/
def NamedFunction.print : NamedFunction → Except PrintFault String
  | ⟨n, _, vs, _⟩ => do
    let texts ← Value.printBound vs
    return if texts.isEmpty then n.value else n.value ++ "(" ++ commaList texts ++ ")"

def Value.printBound : List Value → Except PrintFault (List String)
  | [] => .ok []
  | v :: vs => do
    let text ← if v.text?.isSome then Value.display v else Value.print v
    return text :: (← Value.printBound vs)

/-- The texts that make up the text of a set. A set of aliases asks its entries for their text,
which a function does not have. -/
def Item.texts (kind : SetKind) : List Item → Except PrintFault (List String)
  | [] => .ok []
  | i :: is => do
    let text ← match kind, i with
      | .aliases, .function _ => .error .noText
      | _, i => Item.print i
    return text :: (← Item.texts kind is)

end

mutual

/-- Whether a value can be written out with the texts of all that is in it. -/
def Value.writable : Value → Except PrintFault Unit
  | .int i => (intPrint i).map (fun _ => ())
  | .list vs | .tuple vs | .record _ vs => Value.allWritable vs
  | .item i => Item.writable i
  | .set kind _ es _ => do
    Item.allWritable es
    (Item.texts kind es).map (fun _ => ())
  | _ => .ok ()

def Value.allWritable : List Value → Except PrintFault Unit
  | [] => .ok ()
  | v :: vs => do
    Value.writable v
    Value.allWritable vs

def Item.writable : Item → Except PrintFault Unit
  | .infoWith n t h => do
    Value.writable t
    (Item.print (.infoWith n t h)).map (fun _ => ())
  | .aliasWith n s t h => do
    Value.writable t
    (Item.print (.aliasWith n s t h)).map (fun _ => ())
  | .function f => NamedFunction.writable f
  | _ => .ok ()

def Item.allWritable : List Item → Except PrintFault Unit
  | [] => .ok ()
  | i :: is => do
    Item.writable i
    Item.allWritable is

def NamedFunction.writable : NamedFunction → Except PrintFault Unit
  | ⟨n, o, vs, h⟩ => do
    Value.allWritable vs
    (NamedFunction.print ⟨n, o, vs, h⟩).map (fun _ => ())

end

/-- The text that an item is asked for, which a function does not have. -/
def Item.text : Item → Except PrintFault String
  | .function _ => .error .noText
  | i => i.print

end FunctionCatalog
