import StepAtlas.Text.Basic

/-
Dates and times of the common calendar, as settings may give them, and how they are written.
-/

namespace StepAtlas

structure Date where
  year : Nat
  month : Nat
  day : Nat
deriving DecidableEq, Repr

namespace Date

def isLeap (year : Nat) : Bool := year % 4 = 0 && (year % 100 ≠ 0 || year % 400 = 0)

def daysIn (year month : Nat) : Nat :=
  match month with
  | 2 => if isLeap year then 29 else 28
  | 4 | 6 | 9 | 11 => 30
  | _ => 31

def exists? (d : Date) : Bool :=
  1 ≤ d.year && d.year ≤ 9999 && 1 ≤ d.month && d.month ≤ 12 && 1 ≤ d.day && d.day ≤
    daysIn d.year d.month

/-- The number of a day, counted from the first day of the first year. -/
def ordinal (d : Date) : Nat :=
  let years := d.year - 1
  let months := (List.range (d.month - 1)).foldl (fun days m => days + daysIn d.year (m + 1)) 0
  365 * years + years / 4 - years / 100 + years / 400 + months + d.day

end Date

structure Time where
  hour : Nat
  minute : Nat
  second : Nat
  microsecond : Nat
deriving DecidableEq, Repr

def padded (width n : Nat) : Text :=
  let digits := Nat.toDigits 10 n
  Text.ofChars (List.replicate (width - digits.length) '0' ++ digits)

def Date.text (d : Date) : Text :=
  padded 4 d.year ++ "-" ++ padded 2 d.month ++ "-" ++ padded 2 d.day

def Time.text (t : Time) : Text :=
  let fraction : Text := if t.microsecond = 0 then [] else "." ++ padded 6 t.microsecond
  padded 2 t.hour ++ ":" ++ padded 2 t.minute ++ ":" ++ padded 2 t.second ++ fraction

/-- A date with a time of day, and its distance from universal time in minutes if it is known. -/
structure Moment where
  date : Date
  time : Time
  offset : Option Int
deriving DecidableEq, Repr

/-- The microseconds up to a moment in universal time, if its distance from it is known. -/
def Moment.instant? (m : Moment) : Option Int :=
  m.offset.map fun minutes =>
    let minute : Int := (m.date.ordinal * 24 + m.time.hour) * 60 + m.time.minute - minutes
    (minute * 60 + m.time.second) * 1000000 + m.time.microsecond

def offsetText (minutes : Int) : Text :=
  let sign : Text := if minutes < 0 then "-" else "+"
  sign ++ padded 2 (minutes.natAbs / 60) ++ ":" ++ padded 2 (minutes.natAbs % 60)

def Moment.text (m : Moment) : Text :=
  m.date.text ++ " " ++ m.time.text ++ (m.offset.map offsetText).getD []

end StepAtlas
