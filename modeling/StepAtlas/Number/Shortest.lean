import StepAtlas.Number.Binary64
import StepAtlas.Text.Basic

/-
The text of a floating point number: the fewest digits that read back as the number, and of those
the nearest.  The point is written out for numbers from `0.0001` to below `10 ^ 16`, and beyond that
an exponent of at least two digits is.
-/

namespace StepAtlas
namespace Binary64

/-- The number of places by which a quotient below one has to be moved to reach one tenth. -/
def leadingZeros (n d : Nat) : (fuel : Nat) → Nat
  | 0 => 0
  | fuel + 1 => if d ≤ n * 10 then 0 else leadingZeros (n * 10) d fuel + 1

/-- The place of the decimal point: a quotient is below ten to this power, and at least a tenth of
it. -/
def pointOf (n d : Nat) : Int :=
  if d ≤ n then (Nat.toDigits 10 (n / d)).length else -(leadingZeros n d (d.log2 + 1) : Int)

/-- The decimal with `count` digits that is nearest to a number among those that read back as it, if
any does. -/
def withDigits? (x : Binary64) (n d : Nat) (point : Int) (count : Nat) : Option Nat :=
  let exponent := point - count
  let (a, b) :=
    if 0 ≤ exponent then (n, d * Nat.pow 10 exponent.toNat)
      else (n * Nat.pow 10 (-exponent).toNat, d)
  let low := a / b
  let readsBack (c : Nat) : Bool := ofDecimal false c exponent = x
  let twice := 2 * (a % b)
  match readsBack low, readsBack (low + 1) with
  | true, true => some (if twice < b || (twice = b && low % 2 = 0) then low else low + 1)
  | true, false => some low
  | false, true => some (low + 1)
  | false, false => none

/-- The first of some digit counts that suffices; seventeen always do. -/
def shortestFrom (x : Binary64) (n d : Nat) (point : Int) : (counts : List Nat) → Nat × Int
  | [] => (0, 0)
  | count :: counts => match withDigits? x n d point count with
    | some c => (c, point - count)
    | none => shortestFrom x n d point counts

def significant (digits : List Char) : List Char := (digits.reverse.dropWhile (· = '0')).reverse

/-- Digits with the decimal point behind the first `point` of them. -/
def layout (digits : List Char) (point : Int) : List Char :=
  let zeros (n : Nat) : List Char := List.replicate n '0'
  if -4 < point && point ≤ 16 then
    if point ≤ 0 then '0' :: '.' :: zeros (-point).toNat ++ digits
    else if digits.length ≤ point.toNat then digits ++ zeros (point.toNat - digits.length) ++
      ['.', '0']
    else digits.take point.toNat ++ '.' :: digits.drop point.toNat
  else
    let exponent := point - 1
    let written := Nat.toDigits 10 exponent.natAbs
    let fraction := match digits.tail with
      | [] => []
      | rest => '.' :: rest
    digits.take 1 ++ fraction ++ ['e', if exponent < 0 then '-' else '+'] ++
      (if written.length < 2 then '0' :: written else written)

def text : Binary64 → Text
  | .nan => "nan"
  | .infinite negative => if negative then "-inf" else "inf"
  | .finite negative mantissa exponent =>
    let sign : Text := if negative then "-" else []
    if mantissa = 0 then sign ++ "0.0"
    else
      let (n, d) := ratio mantissa exponent
      let (digits, place) :=
        shortestFrom (.finite false mantissa exponent) n d (pointOf n d)
          ((List.range 17).map (· + 1))
      let written := Nat.toDigits 10 digits
      sign ++ Text.ofChars (layout (significant written) (written.length + place))

end Binary64
end StepAtlas
