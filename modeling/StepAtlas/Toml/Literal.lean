import StepAtlas.Toml.Trouble

/-
Literals: strings in four forms, numbers, dates and times.
-/

namespace StepAtlas
namespace Toml

def isDigit : CodePoint → Bool := CodePoint.test Char.isDigit

def hexDigit? : CodePoint → Option Nat
  | .scalar c =>
    if c.isDigit then some (c.toNat - '0'.toNat)
    else if 'a' ≤ c && c ≤ 'f' then some (c.toNat - 'a'.toNat + 10)
    else if 'A' ≤ c && c ≤ 'F' then some (c.toNat - 'A'.toNat + 10)
    else none
  | .surrogate _ => none

def valueIn (base : Nat) (digits : Text) : Nat :=
  digits.foldl (fun n p => n * base + (hexDigit? p).getD 0) 0

def numbered (width : Nat) : Reader Text := do
  let digits := (← get).take width
  if digits.length ≠ width || !digits.all fun p => (hexDigit? p).isSome then
    fail "Invalid hex value"
  else
    modify (·.drop width)
    match CodePoint.ofNat? (valueIn 16 digits) with
    | some (.scalar c) => return [.scalar c]
    | _ => fail "Escaped character is not a Unicode scalar value"

def shortEscape? : CodePoint → Option Text
  | .scalar 'b' => some "\x08"
  | .scalar 't' => some "\t"
  | .scalar 'n' => some "\n"
  | .scalar 'f' => some "\x0c"
  | .scalar 'r' => some "\r"
  | .scalar '"' => some "\""
  | .scalar '\\' => some "\\"
  | _ => none

/-- An escape behind its backslash.  In a string of several lines a backslash before the end of a
line swallows the blanks and breaks that follow. -/
def escape (multiline : Bool) : Reader Text := do
  match ← get with
  | [] => fail "Unescaped '\\' in a string"
  | p :: r =>
    if multiline && isBlankOrBreak p then
      if p ≠ .scalar '\n' then
        match r.dropWhile isBlank with
        | [] =>
          set ([] : Text)
          return []
        | q :: r' =>
          if q ≠ .scalar '\n' then failAt (q :: r') "Unescaped '\\' in a string"
          else
            set (r'.dropWhile isBlankOrBreak)
            return []
      else
        set (r.dropWhile isBlankOrBreak)
        return []
    else
      set r
      if p = .scalar 'u' then numbered 4
      else if p = .scalar 'U' then numbered 8
      else match shortEscape? p with
        | some t => return t
        | none => fail "Unescaped '\\' in a string"

/-- The rest of a string between double quotes, up to `stop`. -/
def basicString (multiline : Bool) (stop : Text) : (fuel : Nat) → Reader Text
  | 0 => fail "Unterminated string"
  | fuel + 1 => do
    if ← accept stop then return []
    else
      match ← get with
      | [] => fail "Unterminated string"
      | p :: r =>
        if p = .scalar '\\' then
          set r
          let t ← escape multiline
          return t ++ (← basicString multiline stop fuel)
        else if (if multiline then isControlInLines p else isControl p) then
          fail ("Illegal character " ++ Text.quoted [p])
        else
          set r
          return p :: (← basicString multiline stop fuel)

/-- Up to two quotes that stand just behind a string of several lines belong to it. -/
def extraQuotes (quote : Text) : Reader Text := do
  if ← accept quote then
    if ← accept quote then return quote ++ quote else return quote
  else return []

def doubleQuoted : Reader Text := do
  modify (·.drop 1)
  basicString false "\"" ((← get).length + 1)

def singleQuoted : Reader Text := do
  modify (·.drop 1)
  readUntil isControl "'"

def multilineString (quote : Text) : Reader Text := do
  modify (·.drop 3)
  let _ ← accept "\n"
  let body ← if quote = "'" then readUntil isControlInLines "'''"
    else do basicString true "\"\"\"" ((← get).length + 1)
  return body ++ (← extraQuotes quote)

/-- Digits of a base, with single underscores between them; the number of code points they take. -/
def digitsLength (isDigitHere : CodePoint → Bool) : Text → Nat
  | .scalar '_' :: p :: r => if isDigitHere p then digitsLength isDigitHere r + 2 else 0
  | p :: r => if isDigitHere p then digitsLength isDigitHere r + 1 else 0
  | [] => 0

def digitRun (isDigitHere : CodePoint → Bool) (t : Text) : Text :=
  match t with
  | p :: r => if isDigitHere p then t.take (digitsLength isDigitHere r + 1) else []
  | [] => []

def withoutUnderscores (t : Text) : Text := t.filter (· ≠ .scalar '_')

def basedNumber? (t : Text) : Option (Value × Text) :=
  let read (base : Nat) (isDigitHere : CodePoint → Bool) (r : Text) : Option (Value × Text) :=
    let run := digitRun isDigitHere r
    if run = [] then none
    else some (.int (valueIn base (withoutUnderscores run)), r.drop run.length)
  match t with
  | .scalar '0' :: .scalar 'x' :: r => read 16 (fun p => (hexDigit? p).isSome) r
  | .scalar '0' :: .scalar 'b' :: r => read 2 (CodePoint.test fun c => c = '0' || c = '1') r
  | .scalar '0' :: .scalar 'o' :: r => read 8 (CodePoint.test fun c => '0' ≤ c && c ≤ '7') r
  | _ => none

def signOf : Text → Bool × Text
  | .scalar '-' :: r => (true, r)
  | .scalar '+' :: r => (false, r)
  | t => (false, t)

def fractionOf (t : Text) : Text × Text :=
  match t with
  | .scalar '.' :: r =>
    let run := digitRun isDigit r
    if run = [] then ([], t) else (withoutUnderscores run, r.drop run.length)
  | _ => ([], t)

def exponentOf (t : Text) : Option Int × Text :=
  match t with
  | p :: r =>
    if p = .scalar 'e' || p = .scalar 'E' then
      let (negative, r') := signOf r
      let run := digitRun isDigit r'
      if run = [] then (none, t)
      else
        let n : Int := valueIn 10 (withoutUnderscores run)
        (some (if negative then -n else n), r'.drop run.length)
    else (none, t)
  | [] => (none, t)

/-- A decimal number: an integer, unless a fraction or an exponent follows.  An integer can be too
long; then the number of its digits is given. -/
def decimalNumber? (t : Text) : Option (Except Nat Value × Text) :=
  let (negative, r) := signOf t
  let run := match r with
    | .scalar '0' :: _ => ("0" : Text)
    | _ => digitRun isDigit r
  if run = [] then none
  else
    let (fraction, r') := fractionOf (r.drop run.length)
    let (exponent, r'') := exponentOf r'
    let whole := withoutUnderscores run
    if fraction = [] && exponent.isNone then
      let n : Int := valueIn 10 whole
      if whole.length > Text.digitLimit then some (.error whole.length, r'')
      else some (.ok (.int (if negative then -n else n)), r'')
    else
      let digits := valueIn 10 (whole ++ fraction)
      some (.ok (.float (.ofDecimal negative digits (exponent.getD 0 - fraction.length))), r'')

def number? (t : Text) : Option (Except Nat Value × Text) :=
  ((basedNumber? t).map fun (v, r) => (.ok v, r)).or (decimalNumber? t)

def special? (t : Text) : Option (Value × Text) :=
  let (negative, r) := signOf t
  match Text.after? "inf" r, Text.after? "nan" r with
  | some rest, _ => some (.float (.infinite negative), rest)
  | _, some rest => some (.float .nan, rest)
  | none, none => none

/-- A number of exactly `width` digits between two bounds. -/
def field? (width low high : Nat) (t : Text) : Option (Nat × Text) :=
  let digits := t.take width
  let n := valueIn 10 digits
  if digits.length = width && digits.all isDigit && low ≤ n && n ≤ high then some (n, t.drop width)
    else none

/-- The microseconds of a time; further digits say nothing. -/
def microseconds (t : Text) : Nat × Text :=
  match t with
  | .scalar '.' :: r =>
    let digits := r.takeWhile isDigit
    if digits = [] then (0, t)
    else
      let kept := digits.take 6
      (valueIn 10 kept * Nat.pow 10 (6 - kept.length), r.drop digits.length)
  | _ => (0, t)

def time? (t : Text) : Option (Time × Text) := do
  let (hour, t) ← field? 2 0 23 t
  let (minute, t) ← field? 2 0 59 (← Text.after? ":" t)
  let (second, t) ← field? 2 0 59 (← Text.after? ":" t)
  let (microsecond, t) := microseconds t
  return ({ hour, minute, second, microsecond }, t)

def offset? (t : Text) : Option (Int × Text) :=
  match t with
  | .scalar 'Z' :: r | .scalar 'z' :: r => some (0, r)
  | .scalar '+' :: r => hours r
  | .scalar '-' :: r => (hours r).map fun (n, r) => (-n, r)
  | _ => none
where
  hours (r : Text) : Option (Int × Text) := do
    let (hour, r) ← field? 2 0 23 r
    let (minute, r) ← field? 2 0 59 (← Text.after? ":" r)
    return (hour * 60 + minute, r)

def date? (t : Text) : Option (Date × Text) := do
  let (year, t) ← field? 4 0 9999 t
  let (month, t) ← field? 2 1 12 (← Text.after? "-" t)
  let (day, t) ← field? 2 1 31 (← Text.after? "-" t)
  return ({ year, month, day }, t)

def timeBehind? (t : Text) : Option (Time × Option Int × Text) :=
  match t with
  | p :: r =>
    if p = .scalar 'T' || p = .scalar 't' || p = .scalar ' ' then do
      let (time, r) ← time? r
      match offset? r with
      | some (minutes, r) => return (time, some minutes, r)
      | none => return (time, none, r)
    else none
  | [] => none

/-- A date alone or with a time; whether there is such a day is for the caller to see. -/
def moment? (t : Text) : Option (Date × Value × Text) := do
  let (date, t) ← date? t
  match timeBehind? t with
  | some (time, offset, t) => return (date, .moment { date, time, offset }, t)
  | none => return (date, .date date, t)

end Toml
end StepAtlas
