import FunctionCatalog.Moment
import FunctionCatalog.Number.Literal

/-
  FunctionCatalog: moments in writing.
  A day is written with a year of four digits; a time may follow with seconds, a fraction and a
  zone. A month and a day that stand alone have two digits. Whether there is such a moment is
  another question.
-/

namespace FunctionCatalog

structure Timestamp where
  day : Day
  /-- Whether the month and the day have two digits. -/
  full : Bool
  time : Option (TimeOfDay × Option Int)

namespace Timestamp

def natOf (cs : List Char) : Nat :=
  Text.ofDigits (cs.map (fun c => c.toNat - 48))

/-- One or two digits. -/
def isShort (ds : List Char) : Bool :=
  (ds.length == 1 || ds.length == 2) && ds.all Char.isDigit

def isInner (c : Char) : Bool :=
  c == ' ' || c == '\t'

/-- A year, a month and a day with dashes between them. -/
def takeDay? (cs : List Char) : Option (Timestamp × List Char) :=
  let year := cs.takeWhile Char.isDigit
  match cs.dropWhile Char.isDigit with
  | '-' :: rest =>
    let month := rest.takeWhile Char.isDigit
    match rest.dropWhile Char.isDigit with
    | '-' :: rest =>
      let day := rest.takeWhile Char.isDigit
      if year.length = 4 && isShort month && isShort day then
        some (⟨⟨natOf year, natOf month, natOf day⟩, month.length = 2 && day.length = 2, none⟩,
          rest.dropWhile Char.isDigit)
      else none
    | _ => none
  | _ => none

/-- The offset in minutes that a zone writes; there may be no zone at all. -/
def zone? (cs : List Char) : Option (Option Int) :=
  match cs.dropWhile isInner with
  | [] => if cs.isEmpty then some none else none
  | ['Z'] => some (some 0)
  | sign :: rest =>
    let offset (h m : List Char) : Option (Option Int) :=
      let minutes : Int := (60 * natOf h + natOf m : Nat)
      if sign = '+' then some (some minutes)
      else if sign = '-' then some (some (-minutes))
      else none
    match Text.splitWhere (· == ':') rest with
    | [h] => if isShort h then offset h [] else none
    | [h, m] => if isShort h && isShort m && m.length = 2 then offset h m else none
    | _ => none

/-- The millionths that the digits of a fraction write; further digits are dropped. -/
def microsecond (ds : List Char) : Nat :=
  natOf ((ds ++ List.replicate 6 '0').take 6)

/-- A time after a day, with its zone. -/
def time? (cs : List Char) : Option (TimeOfDay × Option Int) := do
  let rest ← match cs with
    | 'T' :: rest => some rest
    | 't' :: rest => some rest
    | c :: _ => if isInner c then some (cs.dropWhile isInner) else none
    | [] => none
  let hour := rest.takeWhile Char.isDigit
  match rest.dropWhile Char.isDigit with
  | ':' :: m :: n :: ':' :: s :: t :: rest =>
    if isShort hour && [m, n, s, t].all Char.isDigit then
      let (fraction, rest) := match rest with
        | '.' :: rest => (rest.takeWhile Char.isDigit, rest.dropWhile Char.isDigit)
        | rest => ([], rest)
      let offset ← zone? rest
      some (⟨natOf hour, natOf [m, n], natOf [s, t], microsecond fraction⟩, offset)
    else none
  | _ => none

/-- The moment that a text is spelled like. -/
def ofText? (cs : List Char) : Option Timestamp :=
  match takeDay? cs with
  | none => none
  | some (d, rest) =>
    if rest.isEmpty then some d else (time? rest).map (fun t => { d with time := some t })

/-- A day alone is written in full. -/
def isProper (t : Timestamp) : Bool :=
  t.full || t.time.isSome

/-- The moment, if there is such a one. -/
def moment? (t : Timestamp) : Option Moment :=
  let m : Moment := match t.time with
    | none => .day t.day
    | some (time, offset) => .time t.day time offset
  if m.isValid then some m else none

end Timestamp

end FunctionCatalog
