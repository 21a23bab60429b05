import FunctionCatalog.Number.Digits

/-
  FunctionCatalog: dates and times.
  A moment is a day, perhaps with a time of that day, and with the offset of its clock from the
  common one where that is known. Moments with an offset are the same when they are the same
  instant.
-/

namespace FunctionCatalog

structure Day where
  year : Nat
  month : Nat
  day : Nat
deriving DecidableEq, Repr

namespace Day

def isLeap (year : Nat) : Bool :=
  year % 4 == 0 && (year % 100 != 0 || year % 400 == 0)

def monthLength (year month : Nat) : Nat :=
  match month with
  | 2 => if isLeap year then 29 else 28
  | 4 | 6 | 9 | 11 => 30
  | _ => 31

/-- The years from 1 to 9999, with the months and days that they have. -/
def isValid (d : Day) : Bool :=
  1 ≤ d.year && d.year ≤ 9999 && 1 ≤ d.month && d.month ≤ 12 && 1 ≤ d.day &&
    d.day ≤ monthLength d.year d.month

/-- The number of days before the first one of a year. -/
def beforeYear (year : Nat) : Nat :=
  let y := year - 1
  y * 365 + y / 4 - y / 100 + y / 400

/-- The number of a day, from the first day of the year 1. -/
def ordinal (d : Day) : Nat :=
  (List.range (d.month - 1)).foldl (fun n m => n + monthLength d.year (m + 1))
    (beforeYear d.year + d.day)

end Day

structure TimeOfDay where
  hour : Nat
  minute : Nat
  second : Nat
  microsecond : Nat
deriving DecidableEq, Repr

def TimeOfDay.isValid (t : TimeOfDay) : Bool :=
  t.hour < 24 && t.minute < 60 && t.second < 60 && t.microsecond < 1000000

inductive Moment where
  | day (d : Day)
  /-- The offset is in minutes. -/
  | time (d : Day) (t : TimeOfDay) (offset : Option Int)
deriving DecidableEq, Repr

namespace Moment

/-- An offset is less than a day. -/
def isValid : Moment → Bool
  | day d => d.isValid
  | time d t offset =>
    d.isValid && t.isValid && offset.all (fun minutes => -1440 < minutes && minutes < 1440)

/-- Microseconds by the common clock. -/
def instant (d : Day) (t : TimeOfDay) (offset : Int) : Int :=
  (((d.ordinal * 24 + t.hour) * 60 + t.minute : Nat) - offset) * 60000000 +
    (t.second * 1000000 + t.microsecond : Nat)

def same : Moment → Moment → Bool
  | time d t (some o), time e u (some p) => instant d t o == instant e u p
  | m, n => m == n

def kindText : Moment → String
  | day _ => "date"
  | time _ _ _ => "datetime"

/-- Numbers with commas between them. -/
def listed (ns : List Nat) : String :=
  ", ".intercalate (ns.map Number.natText)

/-- An offset counts forward from the day before when it is negative. -/
def offsetDisplay (minutes : Int) : String :=
  if minutes = 0 then "datetime.timezone.utc"
  else
    "datetime.timezone(datetime.timedelta(" ++ (if minutes < 0 then "days=-1, " else "") ++
      "seconds=" ++ Number.intText (minutes % 1440 * 60) ++ "))"

/-- A moment as error messages show it. Seconds of zero are left out when nothing finer follows. -/
def display : Moment → String
  | day d => "datetime.date(" ++ listed [d.year, d.month, d.day] ++ ")"
  | time d t offset =>
    let seconds :=
      if t.microsecond != 0 then [t.second, t.microsecond]
      else if t.second != 0 then [t.second] else []
    "datetime.datetime(" ++ listed ([d.year, d.month, d.day, t.hour, t.minute] ++ seconds) ++
      (match offset with
        | none => ""
        | some minutes => ", tzinfo=" ++ offsetDisplay minutes) ++ ")"

end Moment

end FunctionCatalog
