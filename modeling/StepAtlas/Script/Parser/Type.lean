import StepAtlas.Script.Parser.Goal

/-
Types.  A type is passed over, since no code stands in it: brackets are passed as a whole, and the
rest is read only so far as to find where the type ends.
-/

namespace StepAtlas
namespace Script
namespace Parser

def typeArguments (self : Reading) : Parser Unit := do
  token "<"
  let _ ← self .type
  let _ ← many do
    token ","
    guard !(← looking ">")
    let _ ← self .type
  let _ ← accept ","
  token ">"

/-- Parameters of something generic between angle brackets. -/
def typeParameters (self : Reading) : Parser Unit := do
  token "<"
  let _ ← many do
    let modifier ← atAnyWord ["const", "in", "out"]
    if modifier && (← canRead (do let _ ← name; let _ ← name)) then
      let _ ← name
    let _ ← name
    if ← acceptWord "extends" then
      let _ ← self .type
    if ← accept "=" then
      let _ ← self .type
    let _ ← accept ","
  token ">"

def templateType (self : Reading) : Parser Unit := do
  guard (← looking "`")
  modify (Cursor.passRaw 1)
  let _ ← many do
    match templateText? (← get).rest with
    | some (body, .substitution, _) =>
      modify (Cursor.pass (body.length + 2))
      let _ ← self .type
      guard (← looking "\x7d")
      modify (Cursor.passRaw 1)
    | _ => failure
  match templateText? (← get).rest with
  | some (body, .quote, _) => modify (Cursor.pass (body.length + 1))
  | _ => failure

/-- A type that starts with a name: a dotted name with or without arguments. -/
def namedType (self : Reading) : Parser Unit := do
  let _ ← name
  let _ ← many do
    guard !(← looking "...")
    token "."
    let _ ← name
  let _ ← optional (do sameLine; typeArguments self)

def primaryType (self : Reading) : Parser Unit := do
  if ← looking "(" then balanced "("
  else if ← looking "[" then balanced "["
  else if ← looking "\x7b" then balanced "\x7b"
  else if ← looking "`" then templateType self
  else if ← canRead stringLiteral then
    let _ ← stringLiteral
  else if ← accept "-" then number
  else if ← canRead number then number
  else if ← atWord "import" then
    let _ ← name
    balanced "("
    let _ ← many do
      token "."
      let _ ← name
    let _ ← optional (typeArguments self)
  else namedType self

def operandType (self : Reading) : Parser Unit := do
  let _ ← many do
    guard (← atAnyWord ["keyof", "unique", "readonly", "infer", "typeof"])
    guard (← canRead (do let _ ← name; primaryType self))
    let _ ← name
  primaryType self
  let _ ← many do
    sameLine
    balanced "["

def functionType (self : Reading) : Parser Unit := do
  if (← atWord "abstract") && (← canRead (do word "abstract"; word "new")) then word "abstract"
  let _ ← acceptWord "new"
  let _ ← optional (typeParameters self)
  balanced "("
  token "=>"
  let _ ← self .type

/-- A statement about a parameter, in the place of a result type. -/
def predicateType (self : Reading) : Parser Unit := do
  let asserts ← canRead (do word "asserts"; sameLine; let _ ← name)
  if asserts then word "asserts"
  let _ ← name
  if ← canRead (do sameLine; word "is") then
    word "is"
    let _ ← self .type
  else guard asserts

/-- Types joined by bars and ampersands, a bar allowed in front. -/
def unionType (self : Reading) : Parser Unit := do
  if !(← accept "|") then
    let _ ← accept "&"
  operandType self
  let _ ← many do
    guard !((← looking "||") || (← looking "&&"))
    if ← accept "|" then operandType self
    else
      token "&"
      operandType self

/-- A union, or a type that depends on whether one union extends another. -/
def conditionalType (self : Reading) : Parser Unit := do
  unionType self
  let _ ← optional do
    sameLine
    word "extends"
    unionType self
    token "?"
    let _ ← self .type
    token ":"
    let _ ← self .type

def typeRule (self : Reading) : Parser (List Tree) := do
  functionType self <|> predicateType self <|> conditionalType self
  return []

def annotation (self : Reading) : Parser Unit := do
  if ← accept ":" then
    let _ ← self .type

end Parser
end Script
end StepAtlas
