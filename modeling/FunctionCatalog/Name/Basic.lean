import FunctionCatalog.Handle
import FunctionCatalog.Settings
import FunctionCatalog.Number.Digits
import FunctionCatalog.Text.Quoted

/-
  FunctionCatalog: names of functions.
  A name is a letter followed by letters, digits, '-', '.' and '_' (all ASCII), with the mode in
  which it compares. `Name.make` checks a text, `takeName` scans for a name at the front of one.
-/

namespace FunctionCatalog

def isNameStart (c : Char) : Bool :=
  c.isAlpha

def isNamePart (c : Char) : Bool :=
  c.isAlphanum || c == '-' || c == '.' || c == '_'

/-- The longest name at the front of a text, of whatever length, and what follows it. -/
def takeName : List Char → List Char × List Char
  | [] => ([], [])
  | c :: cs =>
    if isNameStart c then (c :: cs.takeWhile isNamePart, cs.dropWhile isNamePart)
    else ([], c :: cs)

/-- The index just past the name that starts at `start`; `start` itself when none does. -/
def scanName (text : List Char) (start : Nat) : Nat :=
  start + (takeName (text.drop start)).1.length

/-- A text with the characters of a name. -/
def isName : List Char → Bool
  | [] => false
  | c :: cs => isNameStart c && cs.all isNamePart

structure Name where
  value : String
  mode : CaseMode
  isName_value : isName value.toList = true
  handle : Handle := .loose
deriving DecidableEq

/-- What is wrong with a text that is no name. -/
inductive NameFault where
  | empty
  | tooLong (length : Nat) (limit : Int)
  | character (c : Char)
deriving DecidableEq

structure NameError where
  text : String
  position : Int
  fault : NameFault
deriving DecidableEq

namespace NameFault

def reason (position : Int) : NameFault → String
  | empty => "Empty name"
  | tooLong length limit =>
    "Name length " ++ Number.natText length ++ " exceeds " ++ Number.intText limit
  | character c =>
    "Invalid character " ++ Text.quoted (String.singleton c) ++ " at " ++ Number.intText position

end NameFault

def NameError.message (e : NameError) : String :=
  e.fault.reason e.position ++ " in " ++ Text.quoted e.text

namespace Name

/-- The first character that keeps a text from being a name, with its index. -/
def firstFault : List Char → Option (Nat × Char)
  | [] => none
  | c :: cs =>
    if isNameStart c then
      (cs.find? (fun d => !isNamePart d)).map
        (fun d => (cs.findIdx (fun d => !isNamePart d) + 1, d))
    else some (0, c)

/-- The name that a text is. An empty text is refused first, then one that is too long, then one
with a wrong character. -/
def make (settings : Settings) (text : String) (mode : CaseMode) : Except NameError Name :=
  let cs := text.toList
  if cs = [] then .error ⟨text, 0, .empty⟩
  else if settings.nameLimit < cs.length then
    .error ⟨text, settings.nameLimit, .tooLong cs.length settings.nameLimit⟩
  else if h : isName text.toList = true then .ok { value := text, mode, isName_value := h }
  else
    match firstFault cs with
    | some (i, c) => .error ⟨text, i, .character c⟩
    | none => .error ⟨text, 0, .empty⟩

/-- A name in another mode. A name that already has the mode is not checked again. -/
def withMode (settings : Settings) (mode : CaseMode) (n : Name) : Except NameError Name :=
  if n.mode = mode then .ok n else make settings n.value mode

/-- Whether two names are written alike and compare alike, whatever objects they are. -/
def alike (a b : Name) : Bool :=
  a.value == b.value && a.mode == b.mode

/-- A name as a numbered object. -/
def settle (n : Name) : Supply Name := do
  return { n with handle := ← n.handle.settle }

/-- The form in which a name compares with names of its own mode. -/
def key (n : Name) : String :=
  n.mode.fold n.value

/-- Names are equal when their forms under their joint mode are. -/
def same (a b : Name) : Bool :=
  let mode := a.mode.join b.mode
  mode.fold a.value == mode.fold b.value

/-- The order of names goes by their forms under their joint mode. -/
def before (a b : Name) : Bool :=
  let mode := a.mode.join b.mode
  mode.fold a.value < mode.fold b.value

theorem mode_of_make {settings : Settings} {text : String} {mode : CaseMode} {n : Name}
    (h : make settings text mode = .ok n) : n.mode = mode := by
  unfold make at h
  dsimp only at h
  split at h
  · cases h
  · split at h
    · cases h
    · split at h
      · cases h; rfl
      · split at h <;> cases h

theorem mode_of_withMode {settings : Settings} {mode : CaseMode} {n m : Name}
    (h : n.withMode settings mode = .ok m) : m.mode = mode := by
  unfold withMode at h
  split at h
  · cases h; assumption
  · exact mode_of_make h

theorem mode_of_alike {a b : Name} (h : a.alike b = true) : a.mode = b.mode := by
  simp [alike] at h
  exact h.2

theorem withMode_of_mode {settings : Settings} {n : Name} :
    n.withMode settings n.mode = .ok n := by
  simp [withMode]

end Name

theorem takeName_append (cs : List Char) : (takeName cs).1 ++ (takeName cs).2 = cs := by
  cases cs with
  | nil => rfl
  | cons c cs =>
    rw [takeName]
    split <;> simp

theorem length_takeName (cs : List Char) :
    (takeName cs).1.length + (takeName cs).2.length = cs.length := by
  rw [← List.length_append, takeName_append]

end FunctionCatalog
