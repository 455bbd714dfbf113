import StepAtlas.Text.Basic

/-
Blank code points and trimming.  The blanks are the white space of the Unicode character database
together with the four separators U+001C to U+001F; the zero width space and the byte order mark are
not blank.
-/

namespace StepAtlas

def CodePoint.isBlank (p : CodePoint) : Bool :=
  let n := p.toNat
  (0x09 ≤ n && n ≤ 0x0D) || (0x1C ≤ n && n ≤ 0x20) || n == 0x85 || n == 0xA0 || n == 0x1680 ||
    (0x2000 ≤ n && n ≤ 0x200A) || n == 0x2028 || n == 0x2029 || n == 0x202F || n == 0x205F || n ==
      0x3000

namespace Text

def trimLeft (t : Text) : Text := t.dropWhile CodePoint.isBlank

def trimRight (t : Text) : Text := (t.reverse.dropWhile CodePoint.isBlank).reverse

def trim (t : Text) : Text := trimRight (trimLeft t)

/-- The pieces between runs of blanks, none of them empty. -/
def words (t : Text) : List Text :=
  let step : CodePoint → Text × List Text → Text × List Text := fun p (word, done) =>
    if p.isBlank then ([], if word.isEmpty then done else word :: done) else (p :: word, done)
  let (word, done) := t.foldr step ([], [])
  if word.isEmpty then done else word :: done

end Text
end StepAtlas
