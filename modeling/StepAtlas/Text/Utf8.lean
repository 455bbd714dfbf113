import StepAtlas.Text.Quoted

/-
UTF-8.  Bytes are decoded one by one: a first byte says how many more belong to its character and in
which range the second one has to lie, so that every character has one form.
-/

namespace StepAtlas

abbrev Bytes := List UInt8

namespace Utf8

/-- A character of which some bytes are still to come. -/
structure Partial where
  /-- The position and the value of its first byte. -/
  start : Nat
  first : Nat
  /-- The number of bytes read and the number still owed. -/
  read : Nat
  owed : Nat
  /-- The bits read so far. -/
  bits : Nat
  /-- The range of the next byte. -/
  low : Nat
  high : Nat
deriving DecidableEq, Repr

/-- What a first byte starts: the bytes owed, the bits it brings, and the range of the second
byte. -/
def lead? (b : Nat) : Option (Nat × Nat × Nat × Nat) :=
  if b < 0x80 then some (0, b, 0, 0)
  else if b < 0xC2 then none
  else if b < 0xE0 then some (1, b - 0xC0, 0x80, 0xBF)
  else if b < 0xF0 then
    some (2, b - 0xE0, if b = 0xE0 then 0xA0 else 0x80, if b = 0xED then 0x9F else 0xBF)
  else if b < 0xF5 then
    some (3, b - 0xF0, if b = 0xF0 then 0x90 else 0x80, if b = 0xF4 then 0x8F else 0xBF)
  else none

/-- A complaint about the bytes from `start` on, `count` of them. -/
def complaint (start first count : Nat) (reason : Text) : Text :=
  if count = 1 then
    "'utf-8' codec can't decode byte 0x" ++ Text.hex 2 first ++ " in position " ++
      Text.ofNat start ++ ": " ++ reason
  else
    "'utf-8' codec can't decode bytes in position " ++ Text.ofNat start ++ "-" ++
      Text.ofNat (start + count - 1) ++ ": " ++ reason

def decodeFrom (position : Nat) : Option Partial → Bytes → Except Text Text
  | none, [] => .ok []
  | some p, [] => .error (complaint p.start p.first p.read "unexpected end of data")
  | none, b :: rest =>
    let b := b.toNat
    match lead? b with
    | none => .error (complaint position b 1 "invalid start byte")
    | some (0, bits, _, _) =>
      do return .scalar (Char.ofNat bits) :: (← decodeFrom (position + 1) none rest)
    | some (owed, bits, low, high) =>
      decodeFrom (position + 1)
        (some { start := position, first := b, read := 1, owed, bits, low, high }) rest
  | some p, b :: rest =>
    let b := b.toNat
    if b < p.low || p.high < b then
      .error (complaint p.start p.first p.read "invalid continuation byte")
    else
      let bits := p.bits * 64 + (b - 0x80)
      if p.owed = 1 then
        do return .scalar (Char.ofNat bits) :: (← decodeFrom (position + 1) none rest)
      else
        decodeFrom (position + 1)
          (some { p with read := p.read + 1, owed := p.owed - 1, bits, low := 0x80, high := 0xBF })
          rest

def decode (bytes : Bytes) : Except Text Text := decodeFrom 0 none bytes

def withoutMark : Bytes → Bytes
  | 0xEF :: 0xBB :: 0xBF :: rest => rest
  | bytes => bytes

/-- The bytes of a text.  A surrogate has none. -/
def encode (t : Text) : Bytes := t.flatMap fun
  | .scalar c => String.utf8EncodeChar c
  | .surrogate _ => []

end Utf8

/-- A text with every line break written as a line feed; `afterReturn` says that a carriage return
was just replaced. -/
def Text.unifyBreaksFrom (afterReturn : Bool) : Text → Text
  | [] => []
  | p :: r =>
    if p = .scalar '\r' then .scalar '\n' :: unifyBreaksFrom true r
    else if afterReturn && p = .scalar '\n' then unifyBreaksFrom false r
    else p :: unifyBreaksFrom false r

def Text.unifyBreaks (t : Text) : Text := unifyBreaksFrom false t

end StepAtlas
