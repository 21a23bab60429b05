import FunctionCatalog.Info
import FunctionCatalog.Selector.Basic

/-
  FunctionCatalog: aliases.
  An alias exposes a name and says what stands behind it: the same name, another name, or a
  selector, which may advertise a token of its own.
-/

namespace FunctionCatalog

/-- The three shapes of an alias. -/
inductive AliasKind where
  | passThrough
  | rename
  | selector
deriving DecidableEq, Repr

def AliasKind.text : AliasKind → String
  | .passThrough => "pass-through"
  | .rename => "rename"
  | .selector => "selector"

/-- What separates and groups in the text of aliases is reserved in their tokens. -/
def aliasReserved : List Char := [',', '(', ')', '"']

namespace Alias

/-- A target is a name or a name with a parameter list. -/
def isTarget (s : Selector) : Bool :=
  s.isBare || Selector.isListText s.valueText.toList

def tokenFits : Option String → Bool
  | none => true
  | some token => isToken aliasReserved token.toList

/-- A target that only names the alias itself again. -/
def isOwnName (name : Name) (s : Selector) (token : Option String) : Bool :=
  s.name.same name && s.isBare && token.isNone

/-- A name without a target has no token either; a target is well formed, is not the name of the
alias itself, and has a proper token if any. -/
def fits (name : Name) (target : Option Selector) (token : Option String) : Bool :=
  match target with
  | none => token.isNone
  | some s => isTarget s && tokenFits token && !isOwnName name s token

end Alias

structure Alias where
  name : Name
  target : Option Selector
  token : Option String
  fits_target : Alias.fits name target token = true
  handle : Handle := .loose
deriving DecidableEq

namespace Alias

/-- A name that is exposed unchanged. -/
def passThrough (name : Name) : Alias :=
  { name, target := none, token := none, fits_target := rfl }

/-- The alias of a name, a target and a token. A target that is the name itself is left out. -/
def make (name : Name) (target : Option Selector) (token : Option String) :
    Except Rejection Alias :=
  match target with
  | none =>
    match token with
    | none => .ok (passThrough name)
    | some _ => .error (.passThroughToken name.value)
  | some s =>
    if ht : isTarget s = true then
      if hk : tokenFits token = true then
        if hn : isOwnName name s token = true then .ok (passThrough name)
        else .ok { name, target := some s, token, fits_target := by simp [fits, ht, hk, hn] }
      else .error (.token (token.getD ""))
    else .error (.aliasTarget name.value s.text)

def kind (a : Alias) : AliasKind :=
  match a.target with
  | none => .passThrough
  | some s => if s.isBare && a.token.isNone then .rename else .selector

/-- An alias under another name; its target's name takes the mode of the new name. -/
def withName (settings : Settings) (name : Name) (a : Alias) : Except Rejection Alias :=
  if name.alike a.name then .ok a
  else
    match a.target with
    | none => make name none a.token
    | some s => do
      let s ← s.withMode settings name.mode
      make name (some s) a.token

/-- The same name, target and token in other objects. -/
def withHandles (name own : Handle) (target : Selector → Selector)
    (h : ∀ s, (target s).valueText = s.valueText ∧ (target s).name.alike s.name = true)
    (a : Alias) : Alias :=
  { name := { a.name with handle := name }
    target := a.target.map target
    token := a.token
    handle := own
    fits_target := by
      have hf := a.fits_target
      cases ht : a.target with
      | none => rw [ht] at hf; simpa [fits] using hf
      | some s =>
        rw [ht] at hf
        obtain ⟨hv, hn⟩ := h s
        simp only [Name.alike, Bool.and_eq_true, beq_iff_eq] at hn
        simpa [fits, isTarget, isOwnName, Selector.isBare, Name.same, hv, hn.1, hn.2] using hf }

/-- An alias as a numbered object, with its name and its target. -/
def settle (a : Alias) : Supply Alias := do
  let name ← a.name.handle.settle
  let own ← a.handle.settle
  match a.target with
  | none => return a.withHandles name own id (fun s => by simp [Name.alike])
  | some s =>
    let targetName ← s.name.handle.settle
    let target ← s.handle.settle
    return a.withHandles name own
      (fun s => { s with name := { s.name with handle := targetName }, handle := target })
      (fun s => by simp [Name.alike])

/-- An alias in another mode. One whose name has the mode is left as it is. -/
def withMode (settings : Settings) (mode : CaseMode) (a : Alias) : Except Rejection Alias := do
  let name ← Rejection.ofName (a.name.withMode settings mode)
  a.withName settings name

def sameTarget : Option Selector → Option Selector → Bool
  | none, none => true
  | some s, some t => s.same t
  | _, _ => false

def same (a b : Alias) : Bool :=
  a.name.same b.name && sameTarget a.target b.target && a.token == b.token

/-- The order of aliases goes by name alone. -/
def before (a b : Alias) : Bool :=
  a.name.before b.name

def text (a : Alias) : String :=
  match a.kind, a.target with
  | .rename, some s => a.name.value ++ " " ++ s.name.value
  | .selector, some s =>
    a.name.value ++ " " ++ s.text ++
      match a.token with
      | none => ""
      | some token => " " ++ token
  | _, _ => a.name.value

theorem name_of_make {name : Name} {target : Option Selector} {token : Option String} {a : Alias}
    (h : make name target token = .ok a) : a.name = name := by
  unfold make at h
  split at h
  · split at h
    · cases h; rfl
    · cases h
  · split at h
    · split at h
      · split at h <;> cases h <;> rfl
      · cases h
    · cases h

theorem mode_of_withName {settings : Settings} {name : Name} {a b : Alias}
    (h : a.withName settings name = .ok b) : b.name.mode = name.mode := by
  unfold withName at h
  split at h
  · next heq => cases h; exact (Name.mode_of_alike heq).symm
  · split at h
    · rw [name_of_make h]
    · next s _ =>
      cases hs : s.withMode settings name.mode with
      | error e => rw [hs] at h; cases h
      | ok t =>
        rw [hs] at h
        rw [name_of_make (show make name (some t) a.token = .ok b from h)]

theorem mode_of_withMode {settings : Settings} {mode : CaseMode} {a b : Alias}
    (h : a.withMode settings mode = .ok b) : b.name.mode = mode := by
  unfold withMode at h
  cases hn : a.name.withMode settings mode with
  | error e => rw [hn] at h; cases h
  | ok n =>
    rw [hn] at h
    rw [mode_of_withName h]
    exact Name.mode_of_withMode hn

end Alias

end FunctionCatalog
