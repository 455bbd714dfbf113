import StepAtlas.Script.Cursor

/-
The recursive parts of a script.  Each rule of the grammar is written against a reader for the other
parts, and one fuelled definition ties the rules together; so a rule is a plain definition, and
depth is bounded in one place.
-/

namespace StepAtlas
namespace Script

inductive Goal where
  | statement | block | expression | assignment | unary | type | object | array | parameters
      | classTail | element
deriving DecidableEq, Repr

/-- A reader for every part.  It gives the nodes of the part in order; a type has none, for no code
stands in it. -/
abbrev Reading := Goal → Parser (List Tree)

namespace Parser

inductive Inside where
  | code | quoted (quote : Char) | lineComment | blockComment

/-- The number of characters up to and including the bracket that closes `depth` open ones. -/
def closingOffset? (depth : Nat) : Inside → List Char → Option Nat
  | _, [] => none
  | .code, '/' :: '/' :: r => (closingOffset? depth .lineComment r).map (· + 2)
  | .code, '/' :: '*' :: r => (closingOffset? depth .blockComment r).map (· + 2)
  | .code, c :: r =>
    if c = '(' || c = '[' || c = '\x7b' then (closingOffset? (depth + 1) .code r).map (· + 1)
    else if c = ')' || c = ']' || c = '\x7d' then
      if depth ≤ 1 then some 1 else (closingOffset? (depth - 1) .code r).map (· + 1)
    else if c = '"' || c = '\'' || c = '`' then (closingOffset? depth (.quoted c) r).map (· + 1)
    else (closingOffset? depth .code r).map (· + 1)
  | .quoted q, '\\' :: _ :: r => (closingOffset? depth (.quoted q) r).map (· + 2)
  | .quoted q, c :: r => (closingOffset? depth (if c = q then .code else .quoted q) r).map (· + 1)
  | .lineComment, c :: r =>
    (closingOffset? depth (if isLineBreak c then .code else .lineComment) r).map (· + 1)
  | .blockComment, '*' :: '/' :: r => (closingOffset? depth .code r).map (· + 2)
  | .blockComment, _ :: r => (closingOffset? depth .blockComment r).map (· + 1)

/-- Pass a bracket and everything up to the bracket that closes it. -/
def balanced (s : String) : Parser Unit := do
  guard (← looking s)
  match closingOffset? 0 .code (← get).rest with
  | some n => modify (Cursor.pass n)
  | none => modify (Cursor.pass ((← get).rest.length))

/-- Whether no line break stands before the next token. -/
def sameLine : Parser Unit := do guard !(← get).broke

def stringLiteral : Parser (List Char) := do
  match (← get).rest with
  | c :: r =>
    guard (c = '"' || c = '\'')
    match stringBody? c r with
    | some (body, _) =>
      modify (Cursor.pass (body.length + 2))
      return body
    | none => failure
  | [] => failure

def numberOf (s : List Char) : List Char :=
  let digits := s.takeWhile fun c => c.isDigit || c = '_'
  match s with
  | '0' :: x :: r =>
    if x = 'x' || x = 'X' || x = 'b' || x = 'B' || x = 'o' || x = 'O' then
      '0' :: x :: r.takeWhile fun c => c.isAlphanum || c = '_'
    else decimal digits (s.drop digits.length)
  | _ => decimal digits (s.drop digits.length)
where
  exponent (r : List Char) : List Char :=
    match r with
    | e :: sign :: d :: r =>
      if (e = 'e' || e = 'E') && (sign = '+' || sign = '-') && d.isDigit then
        e :: sign :: (d :: r).takeWhile fun c => c.isDigit || c = '_'
      else plain (e :: sign :: d :: r)
    | r => plain r
  plain (r : List Char) : List Char :=
    match r with
    | e :: d :: r =>
      if (e = 'e' || e = 'E') && d.isDigit then e :: (d :: r).takeWhile fun c =>
        c.isDigit || c = '_'
      else suffix (e :: d :: r)
    | r => suffix r
  suffix (r : List Char) : List Char :=
    match r with
    | 'n' :: _ => ['n']
    | _ => []
  decimal (digits r : List Char) : List Char :=
    match r with
    | '.' :: r =>
      let fraction := r.takeWhile fun c => c.isDigit || c = '_'
      digits ++ '.' :: fraction ++ exponent (r.drop fraction.length)
    | r => digits ++ exponent r

def number : Parser Unit := do
  match (← get).rest with
  | c :: r =>
    guard (c.isDigit || (c = '.' && (r.head?.any Char.isDigit)))
    modify (Cursor.pass (numberOf (c :: r)).length)
  | [] => failure

end Parser
end Script
end StepAtlas
