import StepAtlas.Script.Literal
import StepAtlas.Script.Tree

/-
Reading a script from left to right.  A cursor stands at the next token, with the blanks and
comments before it already passed; it remembers where the last token ended, because that is where a
node ends, and whether a line break was passed since, because that may end a statement.
-/

namespace StepAtlas
namespace Script

/-- A place in a script: its line, and its column in bytes. -/
structure Place where
  line : Nat
  column : Nat
deriving DecidableEq, Repr

def Place.after (p : Place) (c : Char) : Place :=
  if c = '\n' then { line := p.line + 1, column := 0 }
    else { p with column := p.column + c.utf8Size }

def Place.afterAll (p : Place) (cs : List Char) : Place := cs.foldl Place.after p

def Place.to (p q : Place) : Span := ⟨p.line, p.column, q.line, q.column⟩

def isLineBreak (c : Char) : Bool := c = '\n' || c = '\r' || c = '\u2028' || c = '\u2029'

/-- Whether a character may stand between tokens: white space, the byte order mark and the two
joiners of no width. -/
def isGap (c : Char) : Bool :=
  c = ' ' || ('\t' ≤ c && c ≤ '\r') || c = '\u0085' || c = '\u00a0' || c = '\u1680' ||
    ('\u2000' ≤ c && c ≤ '\u200b') || c = '\u2028' || c = '\u2029' || c = '\u202f' || c =
      '\u205f' ||
    c = '\u2060' || c = '\u3000' || c = '\ufeff'

def isNamePart (c : Char) : Bool :=
  !isGap c && c.toNat > 0x1F && !(":;`\"'@#.,|^&<=>+-*/\\%?!~()[]\x7b\x7d".contains c)

def isNameStart (c : Char) : Bool := isNamePart c && !c.isDigit

/-- What is being passed between two tokens; a comment with the place where it starts. -/
inductive Gap where
  | blank
  | lineComment (start : Place)
  | blockComment (start : Place)

/-- Pass blanks and comments; the result says whether a line break was among them, and where the
comments are. -/
def skipGap (broke : Bool) (comments : List Span) (p : Place) :
    Gap → List Char → Bool × List Span × Place × List Char
  | .blank, '/' :: '/' :: r =>
    skipGap broke comments ((p.after '/').after '/') (.lineComment p) r
  | .blank, '/' :: '*' :: r =>
    skipGap broke comments ((p.after '/').after '*') (.blockComment p) r
  | .blank, c :: r =>
    if isGap c then skipGap (broke || isLineBreak c) comments (p.after c) .blank r
    else (broke, comments, p, c :: r)
  | .lineComment start, c :: r =>
    if isLineBreak c then skipGap true (comments ++ [start.to p]) (p.after c) .blank r
    else skipGap broke comments (p.after c) (.lineComment start) r
  | .blockComment start, '*' :: '/' :: r =>
    let stop := (p.after '*').after '/'
    skipGap broke (comments ++ [start.to stop]) stop .blank r
  | .blockComment start, c :: r =>
    skipGap (broke || isLineBreak c) comments (p.after c) (.blockComment start) r
  | .lineComment start, [] | .blockComment start, [] => (broke, comments ++ [start.to p], p, [])
  | .blank, [] => (broke, comments, p, [])

structure Cursor where
  /-- The script from the next token on. -/
  rest : List Char
  place : Place
  /-- Where the last token ended. -/
  stop : Place
  /-- Whether a line break stands before the next token. -/
  broke : Bool
  /-- Whether something was passed that no rule allows, or something was missing. -/
  damaged : Bool
deriving Repr

namespace Cursor

def settle (c : Cursor) : Cursor :=
  let (broke, _, place, rest) := skipGap false [] c.place .blank c.rest
  { c with rest, place, broke }

/-- Pass `n` characters and nothing more. -/
def passRaw (n : Nat) (c : Cursor) : Cursor :=
  let place := c.place.afterAll (c.rest.take n)
  { c with rest := c.rest.drop n, place, stop := place, broke := false }

/-- Pass a token of `n` characters and go on to the next one. -/
def pass (n : Nat) (c : Cursor) : Cursor := (c.passRaw n).settle

/-- The start of a script.  A first line that names an interpreter is passed. -/
def start (s : List Char) : Cursor :=
  let origin : Place := { line := 0, column := 0 }
  let c : Cursor := { rest := s, place := origin, stop := origin, broke := false, damaged := false }
  match s with
  | '#' :: '!' :: _ => c.pass (s.takeWhile fun c => !isLineBreak c).length
  | _ => c.settle

end Cursor

/-- The dialects of scripts: whether types are written, and whether elements are. -/
inductive Dialect where
  | javascript | typescript | tsx
deriving DecidableEq, Repr

namespace Dialect

def hasTypes : Dialect → Bool
  | .javascript => false
  | .typescript | .tsx => true

def hasElements : Dialect → Bool
  | .typescript => false
  | .javascript | .tsx => true

/-- The dialect of a file by its suffix, which may be written in capitals. -/
def ofPath (p : Path) : Dialect :=
  let s := Text.lowerAscii p.suffix
  if s = ".tsx" then .tsx
  else if s = ".js" ∨ s = ".jsx" ∨ s = ".mjs" ∨ s = ".cjs" then .javascript
  else .typescript

def name : Dialect → Text
  | .javascript => "javascript"
  | .typescript => "typescript"
  | .tsx => "tsx"

end Dialect

/-- A reader of a part of a script: it fails, or gives a result and goes on behind the part. -/
abbrev Parser := StateT Cursor Option

namespace Parser

/-- Whether the script goes on with the given characters. -/
def looking (s : String) : Parser Bool := do return s.toList.isPrefixOf (← get).rest

def token (s : String) : Parser Unit := do
  guard (← looking s)
  modify (Cursor.pass s.length)

def accept (s : String) : Parser Bool := do
  if ← looking s then
    modify (Cursor.pass s.length)
    return true
  else return false

def atEnd : Parser Bool := do return (← get).rest.isEmpty

def damage : Parser Unit := modify fun c => { c with damaged := true }

/-- Read a closing bracket.  At the end of the script a bracket may be missing; the result says
whether it was there. -/
def closing (s : String) : Parser Bool := do
  if ← accept s then return true
  else
    guard (← atEnd)
    damage
    return false

/-- The characters of the name that starts a list.  An escape is kept as it is written; `inBraces`
says that its number in braces is being read. -/
def nameOf (inBraces : Bool) : List Char → List Char
  | '\\' :: 'u' :: '\x7b' :: r => '\\' :: 'u' :: '\x7b' :: nameOf true r
  | '\\' :: 'u' :: r => '\\' :: 'u' :: nameOf inBraces r
  | c :: r =>
    if inBraces && c = '\x7d' then c :: nameOf false r
    else if isNamePart c then c :: nameOf inBraces r
    else []
  | [] => []

def peekName : Parser (List Char) := do
  match (← get).rest with
  | c :: r => if isNameStart c || c = '\\' then return nameOf false (c :: r) else return []
  | [] => return []

def name : Parser (List Char) := do
  let n ← peekName
  guard (!n.isEmpty)
  modify (Cursor.pass n.length)
  return n

def atWord (s : String) : Parser Bool := do return (← peekName) = s.toList

def atAnyWord (words : List String) : Parser Bool := do
  let n ← peekName
  return words.any fun s => s.toList = n

def word (s : String) : Parser Unit := do
  guard (← atWord s)
  modify (Cursor.pass s.length)

def acceptWord (s : String) : Parser Bool := do
  if ← atWord s then
    modify (Cursor.pass s.length)
    return true
  else return false

def ahead {α : Type} (p : Parser α) : Parser α := do
  let c ← get
  let a ← p
  set c
  return a

def canRead {α : Type} (p : Parser α) : Parser Bool := do
  let c ← get
  return (p.run c).isSome

def optional {α : Type} (p : Parser α) : Parser (Option α) := do
  let c ← get
  match p.run c with
  | some (a, c) =>
    set c
    return some a
  | none => return none

/-- Read a part again and again as long as it can be read and takes something away, at most `fuel`
times. -/
def manyFrom {α : Type} (p : Parser α) : (fuel : Nat) → Parser (List α)
  | 0 => return []
  | fuel + 1 => do
    let before ← get
    match p.run before with
    | some (a, after) =>
      if after.rest.length < before.rest.length then
        set after
        return a :: (← manyFrom p fuel)
      else return []
    | none => return []

def many {α : Type} (p : Parser α) : Parser (List α) := do manyFrom p ((← get).rest.length)

def node (kind : Kind) (start : Place) (parts : List Tree) (text : Text := []) : Parser Tree := do
  return .node { kind, text } (start.to (← get).stop) parts

/-- The parts of a rule that stand for nothing but their contents. -/
def group (start : Place) (parts : List Tree) : Parser (List Tree) := do
  return [← node .other start parts]

end Parser
end Script
end StepAtlas
