import StepAtlas.Text.Printable

/-
Quoted text, the way messages show a value: between single quotes, or between double quotes when the
text has a single quote and no double quote.  The quote, the backslash and every code point that is
not printable are escaped.
-/

namespace StepAtlas
namespace Text

def hexDigit (n : Nat) : Char :=
  if n < 10 then Char.ofNat ('0'.toNat + n) else Char.ofNat ('a'.toNat + (n - 10))

/-- The last `width` hexadecimal digits of a number. -/
def hex : (width : Nat) → Nat → Text
  | 0, _ => []
  | width + 1, n => hex width (n / 16) ++ [.scalar (hexDigit (n % 16))]

def quotedPoint (quote : Char) (p : CodePoint) : Text :=
  if p = .scalar quote then [.scalar '\\', p]
  else match p with
    | .scalar '\\' => "\\\\"
    | .scalar '\n' => "\\n"
    | .scalar '\r' => "\\r"
    | .scalar '\t' => "\\t"
    | _ =>
      if p.isPrintable then [p]
      else
        let n := p.toNat
        if n < 0x100 then "\\x" ++ hex 2 n
        else if n < 0x10000 then "\\u" ++ hex 4 n
        else "\\U" ++ hex 8 n

def quoteFor (t : Text) : Char :=
  if t.contains (.scalar '\'') && !t.contains (.scalar '"') then '"' else '\''

def quoted (t : Text) : Text :=
  let q := quoteFor t
  [.scalar q] ++ t.flatMap (quotedPoint q) ++ [.scalar q]

end Text
end StepAtlas
