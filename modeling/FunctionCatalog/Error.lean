import FunctionCatalog.Name.Basic
import FunctionCatalog.Selector.Lexeme
import FunctionCatalog.Text.Blank

/-
  FunctionCatalog: why a text or an entry is refused.
  Each cause has its constructor, and `message` words it.
-/

namespace FunctionCatalog

inductive SelectorFault where
  | badNumber
  | badCharacter (c : Char)
  | badEscape (c : Char)
  | unterminatedText
  | listExpected
  | unclosedList
  | separatorExpected (found : Lexeme)
  | endOfParameters
  | unexpected (found : Lexeme)
  | nameExpected
deriving DecidableEq

/-- A malformed selector or parameter list: what is wrong, in which text and where in it. -/
structure SelectorError where
  fault : SelectorFault
  text : String
  position : Option Nat
deriving DecidableEq

def SelectorError.message (e : SelectorError) : String :=
  let at_ := Number.natText (e.position.getD 0)
  let in_ := " in " ++ Text.quoted e.text
  match e.fault with
  | .badNumber => "Invalid number at " ++ at_ ++ in_
  | .badCharacter c =>
    "Invalid character " ++ Text.quoted (String.singleton c) ++ " at " ++ at_ ++ in_
  | .badEscape c => "Invalid escape \\" ++ String.singleton c ++ " at " ++ at_ ++ in_
  | .unterminatedText => "Unterminated string at " ++ at_ ++ in_
  | .listExpected => "Expected '('" ++ in_
  | .unclosedList => "Missing closing parenthesis for '(' at " ++ at_ ++ in_
  | .separatorExpected found => "Expected ',' or ')' at " ++ at_ ++ " got " ++ found.shown ++ in_
  | .endOfParameters => "Unexpected end of parameters" ++ in_
  | .unexpected found => "Unexpected " ++ found.shown ++ " at " ++ at_ ++ in_
  | .nameExpected => "Expected name at " ++ at_ ++ in_

inductive AliasFault where
  | emptyEntry
  | badCharacter (c : Char)
  | badName (cause : NameError)
  | badSelector (cause : SelectorError)
  | trailing (rest : List Char)
deriving DecidableEq

def AliasFault.message : AliasFault → String
  | .emptyEntry => "empty entry"
  | .badCharacter c => "invalid character " ++ Text.quoted (String.singleton c)
  | .badName cause => cause.message
  | .badSelector cause => cause.message
  | .trailing rest => "unexpected " ++ Text.quoted (String.ofList (Text.trim rest))

/-- A malformed entry of an alias text; its position counts from the start of the whole text. -/
structure AliasError where
  fault : AliasFault
  entry : String
  position : Nat
deriving DecidableEq

/-- A text that does not fall into entries. -/
inductive LayoutFault where
  | unbalancedClose
  | unterminatedText
  | unclosed (entry : List Char)
deriving DecidableEq

structure LayoutError where
  fault : LayoutFault
  text : String
  position : Nat
deriving DecidableEq

def LayoutError.message (e : LayoutError) : String :=
  match e.fault with
  | .unbalancedClose =>
    "Unbalanced ')' at " ++ Number.natText e.position ++ " in " ++ Text.quoted e.text
  | .unterminatedText => "Unterminated string in " ++ Text.quoted e.text
  | .unclosed entry =>
    "Missing closing parenthesis in " ++ Text.quoted (String.ofList (Text.trim entry))

/-- A text that does not have its form. -/
inductive ParseError where
  | info (text : String)
  | selector (e : SelectorError)
  | alias (e : AliasError)
  | layout (e : LayoutError)
  | duplicateAlias (name : String) (entry earlier : List Char) (text : String) (position : Nat)
deriving DecidableEq

namespace ParseError

/-- The text that is refused. -/
def text : ParseError → String
  | info text => text
  | selector e => e.text
  | .alias e => e.entry
  | layout e => e.text
  | duplicateAlias _ _ _ text _ => text

/-- Where the fault shows. -/
def position : ParseError → Option Nat
  | info _ => none
  | selector e => e.position
  | .alias e => some e.position
  | layout e => some e.position
  | duplicateAlias _ _ _ _ position => some position

def message : ParseError → String
  | info text => "Expected '<token> <name>' got " ++ Text.quoted text
  | selector e => e.message
  | .alias e =>
    "Invalid alias " ++ Text.quoted (String.ofList (Text.trim e.entry.toList)) ++ ": " ++
      e.fault.message ++ " at " ++ Number.natText e.position
  | layout e => e.message
  | duplicateAlias name entry earlier _ _ =>
    "Duplicate alias " ++ Text.quoted name ++ " in " ++ Text.quoted (String.ofList entry) ++
      ", already declared by " ++ Text.quoted (String.ofList earlier)

end ParseError

/-- Why a name, an entry or a text is refused. -/
inductive Rejection where
  | name (e : NameError)
  | parse (e : ParseError)
  | digitLimit
  | token (token : String)
  | passThroughToken (name : String)
  | aliasTarget (name target : String)
  | duplicateNames (names : List Name)
deriving DecidableEq

namespace Rejection

def ofName {α : Type} : Except NameError α → Except Rejection α :=
  Except.mapError .name

/-- The wording of a cause; a number of too many digits has none of its own. -/
def message? : Rejection → Option String
  | name e => some e.message
  | parse e => some e.message
  | digitLimit => none
  | token t => some ("Invalid canonical token " ++ Text.quoted t)
  | passThroughToken n => some ("Pass-through " ++ n ++ " cannot have a token")
  | aliasTarget n target =>
    some ("Alias " ++ n ++ " target " ++ target ++ " must be a name or name(params)")
  | duplicateNames names =>
    some ("Duplicate names: " ++ ", ".intercalate (names.map (·.value)))

end Rejection

end FunctionCatalog
