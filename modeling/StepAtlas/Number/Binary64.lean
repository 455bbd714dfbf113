/-
Binary floating point of 64 bits, as exact numbers.  A finite number is an integer times a power of
two, and reading a decimal rounds it to the nearest such number.  All of it is arithmetic on natural
numbers.
-/

namespace StepAtlas

/-- A quotient rounded to the nearest integer; a half goes to the even neighbour. -/
def roundDiv (n d : Nat) : Nat :=
  let q := n / d
  let twice := 2 * (n % d)
  if twice < d || (twice = d && q % 2 = 0) then q else q + 1

/-- A floating point number.  A finite one is `mantissa` times two to the power of `exponent`; the
mantissa is below `2 ^ 53`, and at least `2 ^ 52` unless the exponent is the least one, so that each
number has one form. -/
inductive Binary64 where
  | finite (negative : Bool) (mantissa : Nat) (exponent : Int)
  | infinite (negative : Bool)
  | nan
deriving DecidableEq, Repr

namespace Binary64

def minExponent : Int := -1074

def maxExponent : Int := 971

def scaled (n d : Nat) (exponent : Int) : Nat :=
  if 0 ≤ exponent then roundDiv n (d * Nat.pow 2 exponent.toNat)
  else roundDiv (n * Nat.pow 2 (-exponent).toNat) d

def isBelow (n d : Nat) (exponent : Int) : Bool :=
  if 0 ≤ exponent then n < d * Nat.pow 2 exponent.toNat else n * Nat.pow 2 (-exponent).toNat < d

def ofRatio (negative : Bool) (n d : Nat) : Binary64 :=
  if n = 0 then .finite negative 0 minExponent
  else
    let size : Int := (n.log2 : Int) - (d.log2 : Int)
    let exponent := max minExponent (if isBelow n d size then size - 53 else size - 52)
    let mantissa := scaled n d exponent
    let (mantissa, exponent) :=
      if mantissa = Nat.pow 2 53 then (Nat.pow 2 52, exponent + 1) else (mantissa, exponent)
    if maxExponent < exponent then .infinite negative else .finite negative mantissa exponent

/-- The number nearest to `digits` times ten to the power of `exponent`. -/
def ofDecimal (negative : Bool) (digits : Nat) (exponent : Int) : Binary64 :=
  let size : Int := (Nat.toDigits 10 digits).length + exponent
  if digits = 0 || size < -400 then .finite negative 0 minExponent
  else if 400 < size then .infinite negative
  else if 0 ≤ exponent then ofRatio negative (digits * Nat.pow 10 exponent.toNat) 1
  else ofRatio negative digits (Nat.pow 10 (-exponent).toNat)

/-- The absolute value of a finite number as a quotient. -/
def ratio (mantissa : Nat) (exponent : Int) : Nat × Nat :=
  if 0 ≤ exponent then (mantissa * Nat.pow 2 exponent.toNat, 1)
    else (mantissa, Nat.pow 2 (-exponent).toNat)

def int? : Binary64 → Option Int
  | .finite negative mantissa exponent =>
    let (a, b) := ratio mantissa exponent
    let n : Int := a / b
    if a % b = 0 then some (if negative then -n else n) else none
  | _ => none

def isZero : Binary64 → Bool
  | .finite _ 0 _ => true
  | _ => false

end Binary64
end StepAtlas
