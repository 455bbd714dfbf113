/-
Text as a list of code points.  A step definition may spell half of a surrogate pair, and that half
travels through patterns, feature files and reports like any other character.  A character type that
excludes it would lose input, so text is a list of code points with the surrogates kept apart from
the characters.
-/

namespace StepAtlas

/-- A code point: a character, or a surrogate that stands alone. -/
inductive CodePoint where
  | scalar (c : Char)
  | surrogate (offset : Fin 2048)
deriving DecidableEq, Repr, Inhabited

namespace CodePoint

def toNat : CodePoint → Nat
  | .scalar c => c.toNat
  | .surrogate k => 0xD800 + k.val

def ofNat? (n : Nat) : Option CodePoint :=
  if h : 0xD800 ≤ n ∧ n < 0xE000 then
    some (.surrogate ⟨n - 0xD800, by omega⟩)
  else if n < 0x110000 then
    some (.scalar (Char.ofNat n))
  else
    none

/-- The number of bytes of a code point in UTF-8.  A surrogate has no encoding there and counts like
the characters around it. -/
def utf8Size : CodePoint → Nat
  | .scalar c => c.utf8Size
  | .surrogate _ => 3

/-- A letter `A` to `Z` made small, and any other code point itself. -/
def lowerAscii : CodePoint → CodePoint
  | .scalar c => .scalar c.toLower
  | p => p

instance : Coe Char CodePoint := ⟨.scalar⟩

def test (p : Char → Bool) : CodePoint → Bool
  | .scalar c => p c
  | .surrogate _ => false

end CodePoint

abbrev Text := List CodePoint

namespace Text

/-- The code points of a string, all of them characters. -/
def ofString (s : String) : Text := s.toList.map .scalar

instance : Coe String Text := ⟨ofString⟩

def ofChars (cs : List Char) : Text := cs.map .scalar

def chars? : Text → Option (List Char)
  | [] => some []
  | .scalar c :: r => (chars? r).map (c :: ·)
  | .surrogate _ :: _ => none

def utf8Size (t : Text) : Nat := t.foldr (·.utf8Size + ·) 0

def ofNat (n : Nat) : Text := ofString (toString n)

/-- The decimal digits of an integer, with a minus sign when it is negative. -/
def ofInt : Int → Text
  | .ofNat n => ofNat n
  | .negSucc n => .scalar '-' :: ofNat (n + 1)

/-- No number is read or written with more decimal digits than these. -/
def digitLimit : Nat := 4300

/-- The least number that has more digits than are written. -/
def numberLimit : Nat := Nat.pow 10 digitLimit

/-- The letters `A` to `Z` made small. -/
def lowerAscii (t : Text) : Text := t.map .lowerAscii

def before : Text → Text → Bool
  | _, [] => false
  | [], _ :: _ => true
  | a :: s, b :: t => a.toNat < b.toNat || (a.toNat == b.toNat && before s t)

def after? : (beginning : Text) → Text → Option Text
  | [], t => some t
  | _ :: _, [] => none
  | a :: s, b :: t => if a = b then after? s t else none

def startsWith (t beginning : Text) : Bool := (after? beginning t).isSome

def endsWith (t ending : Text) : Bool := startsWith t.reverse ending.reverse

def occursIn (part : Text) : Text → Bool
  | [] => part.isEmpty
  | c :: r => startsWith (c :: r) part || occursIn part r

/-- The pieces between the places where a code point stands: always one more than there are
places. -/
def splitAt (sep : CodePoint) : Text → List Text
  | [] => [[]]
  | c :: r =>
    if c = sep then [] :: splitAt sep r
    else match splitAt sep r with
      | [] => [[c]]
      | piece :: pieces => (c :: piece) :: pieces

def join (sep : Text) (pieces : List Text) : Text := (pieces.intersperse sep).flatten

/-- Replace every occurrence of `old`, from left to right and without overlap; `skip` counts the
code points of an occurrence that was just replaced.  An empty `old` occurs nowhere. -/
def replaceFrom (old new : Text) (skip : Nat) : Text → Text
  | [] => []
  | c :: r =>
    match skip with
    | n + 1 => replaceFrom old new n r
    | 0 =>
      if old ≠ [] ∧ startsWith (c :: r) old then new ++ replaceFrom old new (old.length - 1) r
      else c :: replaceFrom old new 0 r

/-- Replace every occurrence of `old`, from left to right and without overlap. -/
def replace (t old new : Text) : Text := replaceFrom old new 0 t

theorem after?_append (s t : Text) : after? s (s ++ t) = some t := by
  induction s with
  | nil => rfl
  | cons a s ih => simp [after?, ih]

theorem chars?_ofChars (cs : List Char) : chars? (ofChars cs) = some cs := by
  induction cs with
  | nil => rfl
  | cons c cs ih => simp_all [ofChars, chars?]

end Text
end StepAtlas
