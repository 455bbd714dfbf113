import StepAtlas.Script.Parser.Expression

/-
Elements: tags with attributes, and between them text and expressions in braces.  Text is passed
character by character, because blanks, quotes and comment signs mean nothing in it.
-/

namespace StepAtlas
namespace Script
namespace Parser

/-- The name of a tag or an attribute: names with dashes in them, joined by dots and colons. -/
def tagName : Parser Unit := do
  let part : Parser Unit := do
    let n := ((← get).rest.takeWhile fun c => isNamePart c || c = '-').length
    guard (n ≠ 0)
    modify (Cursor.pass n)
  part
  let _ ← many do
    if !(← accept ".") then token ":"
    part

/-- An expression in braces, which may be empty; the closing brace is the last thing passed. -/
def braced (self : Reading) : Parser (List Tree) := do
  token "\x7b"
  let _ ← accept "..."
  let found ← if ← looking "\x7d" then pure [] else self .expression
  guard (← looking "\x7d")
  modify (Cursor.passRaw 1)
  return found

def attributeOf (self : Reading) : Parser (List Tree) := do
  if ← looking "\x7b" then
    let found ← braced self
    modify Cursor.settle
    return found
  else
    tagName
    if ← accept "=" then
      match (← get).rest with
      | c :: r =>
        if c = '"' || c = '\'' then
          modify (Cursor.pass ((r.takeWhile (· ≠ c)).length + 2))
          return []
        else
          let found ← if c = '\x7b' then braced self else self .element
          modify Cursor.settle
          return found
      | [] => failure
    else return []

def child (self : Reading) : Parser (List Tree) := do
  match (← get).rest with
  | [] => failure
  | c :: r =>
    if c = '\x7b' then braced self
    else if c = '<' then
      guard ((r.dropWhile isGap).head? ≠ some '/')
      self .element
    else
      modify (Cursor.passRaw ((c :: r).takeWhile fun c => c ≠ '<' && c ≠ '\x7b').length)
      return []

def children (self : Reading) : Parser (List Tree) := do
  modify (Cursor.passRaw 1)
  let found ← many (child self)
  token "<"
  token "/"
  let _ ← optional tagName
  guard (← looking ">")
  modify (Cursor.passRaw 1)
  return found.flatten

/-- An element; the end of its last tag is the last thing passed. -/
def elementRule (types : Bool) (self : Reading) : Parser (List Tree) := do
  token "<"
  if ← looking ">" then children self
  else
    tagName
    if types then
      let _ ← optional (typeArguments self)
    let attributes ← many (attributeOf self)
    if ← looking "/" then
      token "/"
      guard (← looking ">")
      modify (Cursor.passRaw 1)
      return attributes.flatten
    else
      guard (← looking ">")
      return attributes.flatten ++ (← children self)

end Parser
end Script
end StepAtlas
