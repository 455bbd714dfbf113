import StepAtlas.Fault

/-
Literals of scripts: where a string, a template or a regular expression ends, and what the escapes
in a string stand for.
-/

namespace StepAtlas
namespace Script

/-- The raw text of a string up to its quote, and what follows the quote.  A backslash protects the
character after it, or a line break of two characters; a string does not reach over any other end of
a line. -/
def stringBody? (quote : Char) : List Char → Option (List Char × List Char)
  | [] => none
  | '\\' :: '\r' :: '\n' :: r =>
    (stringBody? quote r).map fun (body, r) => ('\\' :: '\r' :: '\n' :: body, r)
  | '\\' :: c :: r => (stringBody? quote r).map fun (body, r) => ('\\' :: c :: body, r)
  | c :: r =>
    if c = quote then some ([], r)
    else if c = '\n' || c = '\r' then none
    else (stringBody? quote r).map fun (body, r) => (c :: body, r)

inductive TemplateEnd where
  | quote | substitution
deriving DecidableEq

/-- The raw text of a template up to its closing quote or its next substitution, and what follows
that. -/
def templateText? : List Char → Option (List Char × TemplateEnd × List Char)
  | [] => none
  | '`' :: r => some ([], .quote, r)
  | '$' :: '\x7b' :: r => some ([], .substitution, r)
  | '\\' :: c :: r => (templateText? r).map fun (body, stop, r) => ('\\' :: c :: body, stop, r)
  | c :: r => (templateText? r).map fun (body, stop, r) => (c :: body, stop, r)

/-- The body of a regular expression up to its slash, and what follows it.  A slash inside brackets
does not end it. -/
def regexBody? (inSet : Bool) : List Char → Option (List Char × List Char)
  | [] => none
  | '\\' :: c :: r =>
    if c = '\n' then none else (regexBody? inSet r).map fun (body, r) => ('\\' :: c :: body, r)
  | c :: r =>
    if c = '\n' then none
    else if c = '/' && !inSet then some ([], r)
    else
      let inSet := if c = '[' then true else if c = ']' then false else inSet
      (regexBody? inSet r).map fun (body, r) => (c :: body, r)

def isHexDigit : CodePoint → Bool :=
  CodePoint.test fun c => c.isDigit || ('a' ≤ c && c ≤ 'f') || ('A' ≤ c && c ≤ 'F')

def hexValue (t : Text) : Nat :=
  t.foldl (fun n p => n * 16 + (match p with
    | .scalar c =>
      if c.isDigit then c.toNat - '0'.toNat
      else if 'a' ≤ c then c.toNat - 'a'.toNat + 10
      else c.toNat - 'A'.toNat + 10
    | .surrogate _ => 0)) 0

def simpleEscape : CodePoint → Text
  | .scalar 'n' => "\n"
  | .scalar 't' => "\t"
  | .scalar 'r' => "\r"
  | .scalar 'b' => "\x08"
  | .scalar 'f' => "\x0c"
  | .scalar 'v' => "\x0b"
  | .scalar '0' => "\x00"
  | .scalar '\n' | .scalar '\r' | .scalar '\u2028' | .scalar '\u2029' => []
  | p => [p]

/-- An escape with digits or of two code points, after its backslash: what it stands for and how
many code points it has.  A number in braces that is no code point stands for the escape as it is
written, and one that does not fit into 31 bits is an error. -/
def longEscape? (t : Text) : Option (Except Fault Text × Nat) :=
  match t with
  | .scalar 'u' :: .scalar '\x7b' :: r =>
    let digits := r.takeWhile isHexDigit
    if digits ≠ [] ∧ (r.drop digits.length).head? = some (.scalar '\x7d') then
      let n := hexValue digits
      let value : Except Fault Text :=
        if n ≥ 0x80000000 then .error .codePointTooLarge
        else match CodePoint.ofNat? n with
          | some p => .ok [p]
          | none => .ok ("\\u\x7b" ++ digits ++ "\x7d")
      some (value, digits.length + 3)
    else none
  | .scalar 'u' :: a :: b :: c :: d :: _ =>
    if [a, b, c, d].all isHexDigit then
      some (.ok (CodePoint.ofNat? (hexValue [a, b, c, d])).toList, 5)
    else none
  | .scalar 'x' :: a :: b :: _ =>
    if isHexDigit a && isHexDigit b then some (.ok (CodePoint.ofNat? (hexValue [a, b])).toList, 3)
      else none
  | .scalar '\r' :: .scalar '\n' :: _ => some (.ok [], 2)
  | _ => none

/-- Resolve the escapes of a literal; `skip` counts the code points of an escape that are still to
be passed. -/
def unescapeFrom (skip : Nat) : Text → Except Fault Text
  | [] => .ok []
  | p :: r =>
    match skip with
    | n + 1 => unescapeFrom n r
    | 0 =>
      if p = .scalar '\\' then
        match longEscape? r, r with
        | some (value, length), _ => do return (← value) ++ (← unescapeFrom length r)
        | none, q :: _ => do return simpleEscape q ++ (← unescapeFrom 1 r)
        | none, [] => .ok [p]
      else do return p :: (← unescapeFrom 0 r)

def unescape (raw : Text) : Except Fault Text := unescapeFrom 0 raw

end Script
end StepAtlas
